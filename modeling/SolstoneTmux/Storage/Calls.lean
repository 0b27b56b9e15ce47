import SolstoneTmux.Storage.Metadata
import SolstoneTmux.Foundations.Program

/-!
# File system calls

The calls that the capture store makes on a stream directory, as programs over `StreamDir`. Every
call may fail and may be the last one of the process; a write may stop after some of its bytes.
Paths are relative to the stream directory: an entry of it, or a member of a segment directory.

`atomicWriteBytes` replaces a file through a temporary one: the file holds the old content until the
rename and the new one after it (`wp_atomicWriteBytes`). The program does not look at the temporary
file again, so its steps leave that out; that it stays where the process ends before the rename is a
step of the runs in which other entries of the stream directory matter (`leftTemporary`).
-/

namespace SolstoneTmux

open Foundations Foundations.Prog

/-- A path below the stream directory; the empty path is the stream directory. -/
abbrev RelPath := List OsName

/-- `StorageError`. -/
inductive StorageError
  | invalidTarget (path : RelPath)
  | offsetMismatch (path : RelPath) (expected actual : ℕ)
  | io (stage : String) (path : RelPath) (source : IoKind)
  | recoverable (error : StorageError)
  | poisoned (operation rollback : StorageError)
  | rollbackGroup (json metadata : Option StorageError)

/-- `StorageError::is_poisoned`. -/
def StorageError.isPoisoned : StorageError → Bool
  | poisoned _ _ => true
  | _ => false

section Calls

variable {ε α : Type}

/-- A call whose failure is raised. -/
def call (err : IoKind → ε) (p : Prog StreamDir Turn ε (Except IoKind α)) :
    Prog StreamDir Turn ε α :=
  p.bind (orRaise err)

section CallRules

variable {A : Turn → Prop} {err : IoKind → ε} {Q : Ended ε α → StreamDir → Prop} {d : StreamDir}

/-- The rule of an atomic call whose result and effect are known. -/
theorem wp_call_atomic {full : StreamDir → Except IoKind α × StreamDir} {a : α} {d' : StreamDir}
    (hfull : full d = (.ok a, d')) (hok : Q (.done a) d')
    (hfail : canFail A → Q (.raised (err .other)) d) (hkill : canKill A → Q .killed d) :
    wp A (call err (atomic full)) Q d := by
  rw [call, wp_bind]
  refine wp_atomic ?_ hfail hkill
  rw [hfull]
  exact hok

/-- The rule of an atomic call that cannot work. -/
theorem wp_call_atomic_error {full : StreamDir → Except IoKind α × StreamDir} {k : IoKind}
    (hfull : full d = (.error k, d)) (herr : Q (.raised (err k)) d)
    (hfail : canFail A → Q (.raised (err .other)) d) (hkill : canKill A → Q .killed d) :
    wp A (call err (atomic full)) Q d := by
  rw [call, wp_bind]
  refine wp_atomic ?_ hfail hkill
  rw [hfull]
  exact herr

theorem wp_call_query {read : StreamDir → Except IoKind α} {a : α} (hread : read d = .ok a)
    (hok : Q (.done a) d) (hfail : canFail A → Q (.raised (err .other)) d)
    (hkill : canKill A → Q .killed d) : wp A (call err (query read)) Q d :=
  wp_call_atomic (by rw [hread]) hok hfail hkill

theorem wp_call_barrier {Q : Ended ε Unit → StreamDir → Prop} (hok : Q (.done ()) d)
    (hfail : canFail A → Q (.raised (err .other)) d) (hkill : canKill A → Q .killed d) :
    wp A (call err barrier) Q d :=
  wp_call_query rfl hok hfail hkill

section Stops

variable {I : StreamDir → Prop} {P : α → StreamDir → Prop}

/-- The rule of an atomic call whose failure is raised, when the calling program may stop in `I`. -/
theorem endsIn_call_atomic {full : StreamDir → Except IoKind α × StreamDir} (h : I d)
    (hok : ∀ a, (full d).1 = .ok a → P a (full d).2)
    (herr : ∀ k, (full d).1 = .error k → I (full d).2) :
    wp A (call err (atomic full)) (endsIn I P) d := by
  rw [call, wp_bind]
  refine wp_atomic ?_ (fun _ => h) fun _ => h
  rw [andThen_done]
  cases hr : (full d).1 with
  | ok a => exact hok a hr
  | error k => exact herr k hr

theorem endsIn_call_query {read : StreamDir → Except IoKind α} (h : I d)
    (hok : ∀ a, read d = .ok a → P a d) : wp A (call err (query read)) (endsIn I P) d :=
  endsIn_call_atomic h hok fun _ _ => h

theorem endsIn_call_barrier {P : Unit → StreamDir → Prop} (h : I d) (hok : P () d) :
    wp A (call err barrier) (endsIn I P) d :=
  endsIn_call_query h fun _ _ => hok

end Stops

end CallRules

/-! ## Entries of the stream directory -/

/-- `fs::symlink_metadata` of an entry. -/
def symlinkMetadata (name : OsName) :
    Prog StreamDir Turn ε (Except IoKind (Node Contents SegmentDir)) :=
  query fun d => match d[name]? with
    | some node => .ok node
    | none => .error .notFound

/-- `fs::symlink_metadata(..).is_ok()`: an error counts as absence. -/
def entryVisible (name : OsName) : Prog StreamDir Turn ε Bool :=
  glance (fun d => d[name]?.isSome) false

/-- `fs::read` of an entry. -/
def readFile (name : OsName) : Prog StreamDir Turn ε (Except IoKind Contents) :=
  query fun d => match d[name]? with
    | some (.file c) => .ok c
    | some _ => .error .other
    | none => .error .notFound

/-- Whether `rename(2)` replaces what is at its target by what it moves. -/
def replaceable (source : Node Contents SegmentDir) : Option (Node Contents SegmentDir) → Bool
  | none => true
  | some (.directory members) => source.isDir && members.isEmpty
  | some _ => !source.isDir

/-- What `rename(2)` of an entry does to the stream directory. -/
def renamed (source target : OsName) (d : StreamDir) : Except IoKind Unit × StreamDir :=
  match d[source]? with
  | none => (.error .notFound, d)
  | some node =>
    if source = target then (.ok (), d)
    else if replaceable node d[target]? then (.ok (), (d.erase source).insert target node)
    else (.error .other, d)

/-- `fs::rename` of an entry. -/
def renameEntry (source target : OsName) : Prog StreamDir Turn ε (Except IoKind Unit) :=
  atomic (renamed source target)

/-- What `unlink(2)` of an entry does to the stream directory. -/
def unlinked (name : OsName) (d : StreamDir) : Except IoKind Unit × StreamDir :=
  match d[name]? with
  | none => (.error .notFound, d)
  | some (.directory _) => (.error .other, d)
  | some _ => (.ok (), d.erase name)

/-- `fs::remove_file` of an entry. -/
def removeFile (name : OsName) : Prog StreamDir Turn ε (Except IoKind Unit) :=
  atomic (unlinked name)

/-- What `rmdir(2)` of an entry does to the stream directory. -/
def withoutDir (name : OsName) (d : StreamDir) : Except IoKind Unit × StreamDir :=
  match d[name]? with
  | none => (.error .notFound, d)
  | some (.directory members) =>
    if members.isEmpty then (.ok (), d.erase name) else (.error .other, d)
  | some _ => (.error .other, d)

/-- `fs::remove_dir` of an entry. -/
def removeDir (name : OsName) : Prog StreamDir Turn ε (Except IoKind Unit) :=
  atomic (withoutDir name)

/-- `fs::create_dir` of an entry. -/
def createDir (name : OsName) : Prog StreamDir Turn ε (Except IoKind Unit) :=
  atomic fun d => match d[name]? with
    | none => (.ok (), d.insert name (.directory ∅))
    | some _ => (.error .other, d)

/-! ## Members of a segment directory -/

/-- The members of a segment directory. -/
def segmentMembers (d : StreamDir) (segment : OsName) : Option SegmentDir :=
  match d[segment]? with
  | some (.directory members) => some members
  | _ => none

/-- The order in which `fs::read_dir` lists a segment directory: every member once. -/
structure Listing where
  order : SegmentDir → List OsName
  nodup : ∀ members, (order members).Nodup
  mem : ∀ members name, name ∈ order members ↔ members[name]?.isSome

/-- The members in the order of their names. -/
def Listing.byName : Listing where
  order := fun members => members.keys
  nodup := by
    intro members
    refine List.Pairwise.imp ?_ (Std.ExtTreeMap.distinct_keys (t := members))
    intro a b hne heq
    exact hne (by rw [heq]; exact Std.LawfulEqOrd.compare_eq_iff_eq.mpr rfl)
  mem := by
    intro members name
    rw [Std.ExtTreeMap.mem_keys, Std.ExtTreeMap.isSome_getElem?_iff_mem]

/-- `fs::read_dir` of a segment directory. -/
def readDir (listing : Listing) (segment : OsName) :
    Prog StreamDir Turn ε (Except IoKind (List OsName)) :=
  query fun d => match segmentMembers d segment with
    | some members => .ok (listing.order members)
    | none => .error (if d[segment]?.isSome then .other else .notFound)

/-- The member of a segment directory under a name. -/
def memberAt (d : StreamDir) (segment member : OsName) : Option (Node Bytes ℕ) :=
  (segmentMembers d segment).bind (·[member]?)

/-- The stream directory with one member of a segment directory replaced. -/
def setMember (d : StreamDir) (segment member : OsName) (node : Node Bytes ℕ) : StreamDir :=
  match segmentMembers d segment with
  | some members => d.insert segment (.directory (members.insert member node))
  | none => d

/-- `ftruncate(2)`: the bytes up to a length, with zeros where there are none. -/
def resize (b : Bytes) (n : ℕ) : Bytes := b.take n ++ List.replicate (n - b.length) 0

/-- `pwrite(2)`: bytes placed at an offset. -/
def writeAt (b : Bytes) (offset : ℕ) (data : Bytes) : Bytes :=
  resize b offset ++ data ++ b.drop (offset + data.length)

/-- `symlink_metadata` of a member, or `metadata` of an open one. -/
def memberMetadata (segment member : OsName) :
    Prog StreamDir Turn ε (Except IoKind (Node Bytes ℕ)) :=
  query fun d => match memberAt d segment member with
    | some node => .ok node
    | none => .error .notFound

/-- What opening a member for writing does to the stream directory. -/
def openedMember (segment member : OsName) (d : StreamDir) : Except IoKind Unit × StreamDir :=
  match segmentMembers d segment with
  | none => (.error .notFound, d)
  | some members => match members[member]? with
    | none => (.ok (), setMember d segment member (.file []))
    | some (.file _) => (.ok (), d)
    | some _ => (.error .other, d)

/-- `open(2)` of a member for writing, created when it is not there. -/
def openMember (segment member : OsName) : Prog StreamDir Turn ε (Except IoKind Unit) :=
  atomic (openedMember segment member)

/-- What `ftruncate(2)` of a member does to the stream directory. -/
def resizedMember (segment member : OsName) (length : ℕ) (d : StreamDir) :
    Except IoKind Unit × StreamDir :=
  match memberAt d segment member with
  | some (.file b) => (.ok (), setMember d segment member (.file (resize b length)))
  | some _ => (.error .other, d)
  | none => (.error .notFound, d)

/-- `File::set_len` of a member. -/
def setLen (segment member : OsName) (length : ℕ) : Prog StreamDir Turn ε (Except IoKind Unit) :=
  atomic (resizedMember segment member length)

/-- The stream directory after the first bytes of `data` were written to a member. -/
def writtenTo (segment member : OsName) (offset : ℕ) (data : Bytes) (d : StreamDir) : StreamDir :=
  match memberAt d segment member with
  | some (.file b) => setMember d segment member (.file (writeAt b offset data))
  | _ => d

/-- `File::write_all` to an open member at an offset. -/
def writeAll (segment member : OsName) (offset : ℕ) (data : Bytes) :
    Prog StreamDir Turn ε (Except IoKind Unit) :=
  sys (fun d => (.ok (), writtenTo segment member offset data d))
    (fun n d => writtenTo segment member offset (data.take n) d)

/-- What `unlink(2)` of a member does to the stream directory. -/
def unlinkedMember (segment member : OsName) (d : StreamDir) : Except IoKind Unit × StreamDir :=
  match segmentMembers d segment with
  | none => (.error .notFound, d)
  | some members => match members[member]? with
    | none => (.error .notFound, d)
    | some (.directory _) => (.error .other, d)
    | some _ => (.ok (), d.insert segment (.directory (members.erase member)))

/-- `fs::remove_file` of a member. -/
def removeMember (segment member : OsName) : Prog StreamDir Turn ε (Except IoKind Unit) :=
  atomic (unlinkedMember segment member)

end Calls

/-! ## Members under updates -/

section Members

variable {d : StreamDir} {segment member : OsName} {members : SegmentDir}

theorem segmentMembers_eq_some :
    segmentMembers d segment = some members ↔ d[segment]? = some (.directory members) := by
  unfold segmentMembers
  cases h : d[segment]? with
  | none => simp
  | some node => cases node <;> simp

theorem setMember_of_members (h : segmentMembers d segment = some members) (node : Node Bytes ℕ) :
    setMember d segment member node = d.insert segment (.directory (members.insert member node)) := by
  rw [setMember, h]

theorem memberAt_of_members (h : segmentMembers d segment = some members) (member : OsName) :
    memberAt d segment member = members[member]? := by
  rw [memberAt, h]
  rfl

theorem segmentMembers_insert_self (d : StreamDir) (segment : OsName) (members : SegmentDir) :
    segmentMembers (d.insert segment (.directory members)) segment = some members := by
  rw [segmentMembers_eq_some, Table.get_insert_self]

theorem segmentMembers_insert_ne {name : OsName} (h : name ≠ segment)
    (node : Node Contents SegmentDir) :
    segmentMembers (d.insert name node) segment = segmentMembers d segment := by
  unfold segmentMembers
  rw [Table.get_insert_ne h]

end Members

/-! ## Entries under updates -/

section Entries

variable {d : StreamDir} {source target name : OsName} {node : Node Contents SegmentDir}

theorem renamed_of_free (hs : d[source]? = some node) (hne : source ≠ target)
    (ht : d[target]? = none) :
    renamed source target d = (.ok (), (d.erase source).insert target node) := by
  simp [renamed, hs, hne, ht, replaceable]

/-- A rename of what is there works, or something is in its way. -/
theorem renamed_or (hs : d[source]? = some node) (hne : source ≠ target) :
    renamed source target d = (.ok (), (d.erase source).insert target node) ∨
      (d[target]?.isSome = true ∧ renamed source target d = (.error .other, d)) := by
  cases ht : d[target]? with
  | none => exact .inl (renamed_of_free hs hne ht)
  | some other =>
    by_cases hr : replaceable node (some other) = true
    · exact .inl (by simp [renamed, hs, hne, ht, hr])
    · exact .inr ⟨rfl, by simp [renamed, hs, hne, ht, hr]⟩

/-- A rename moves its source, or changes nothing. -/
theorem renamed_cases (source target : OsName) (d : StreamDir) :
    (renamed source target d).2 = d ∨
      ∃ node, d[source]? = some node ∧ source ≠ target ∧ replaceable node d[target]? = true ∧
        renamed source target d = (.ok (), (d.erase source).insert target node) := by
  unfold renamed
  split
  · exact .inl rfl
  · rename_i node hs
    split
    · exact .inl rfl
    · rename_i hne
      split
      · rename_i hr
        exact .inr ⟨node, hs, hne, hr, rfl⟩
      · exact .inl rfl

theorem unlinked_of_file {c : Contents} (h : d[name]? = some (.file c)) :
    unlinked name d = (.ok (), d.erase name) := by
  simp [unlinked, h]

theorem withoutDir_of_empty (h : d[name]? = some (.directory ∅)) :
    withoutDir name d = (.ok (), d.erase name) := by
  simp [withoutDir, h]

end Entries

theorem resize_length (b : Bytes) : resize b b.length = b := by
  simp [resize]

theorem resize_of_le {b : Bytes} {n : ℕ} (h : n ≤ b.length) : resize b n = b.take n := by
  rw [resize, Nat.sub_eq_zero_of_le h]
  simp

theorem writeAt_end (b data : Bytes) : writeAt b b.length data = b ++ data := by
  rw [writeAt, resize_length, List.drop_eq_nil_of_le (by omega), List.append_nil]

/-! ## Replacing a file -/

/-- `sync_directory`. -/
def syncDirectory (path : RelPath) : Prog StreamDir Turn StorageError Unit :=
  call (StorageError.io "fsync directory" path) barrier

/-- `rename(2)` of the temporary file over an entry. -/
def replaceFile (name : OsName) (content : Contents) :
    Prog StreamDir Turn StorageError (Except IoKind Unit) :=
  atomic fun d => match d[name]? with
    | some (.directory _) => (.error .other, d)
    | _ => (.ok (), d.insert name (.file content))

/-- `atomic_write_bytes`. The first barrier stands for the temporary file: created, written and
flushed. -/
def atomicWriteBytes (name : OsName) (content : Contents) :
    Prog StreamDir Turn StorageError Unit :=
  (symlinkMetadata name).bind fun
    | .ok (.file _) | .error .notFound =>
      (call (.io "write metadata" [name]) barrier).bind fun _ =>
      (call (.io "rename metadata" [name]) (replaceFile name content)).bind fun _ =>
      syncDirectory []
    | .ok _ => raise (.invalidTarget [name])
    | .error kind => raise (.io "inspect atomic write target" [name] kind)

/-- The name of a temporary file of `atomic_write_bytes`, for the file of a name. -/
def temporaryName (name : Str) (process counter : ℕ) : Str :=
  ('.' :: name) ++ '.' :: decimal process ++ '.' :: decimal counter ++ ".tmp".toList

/-- An entry is a temporary file of `atomic_write_bytes`. -/
def IsTemporary (name : OsName) : Prop :=
  ∃ target process counter, name = .str (temporaryName target process counter)

/-- The stream directory with a temporary file that was not renamed. -/
def leftTemporary (d : StreamDir) (name : Str) (process counter : ℕ) (content : Contents) :
    StreamDir :=
  d.insert (.str (temporaryName name process counter)) (.file content)

/-- An entry that `atomic_write_bytes` may replace. -/
def PlainTarget (d : StreamDir) (name : OsName) : Prop :=
  ∀ node, d[name]? = some node → node.isFile = true

/-- The rule of an atomic replacement: the file holds its old content or all of its new one. -/
theorem wp_atomicWriteBytes {A : Turn → Prop} {name : OsName} {content : Contents}
    {Q : Ended StorageError Unit → StreamDir → Prop} {d : StreamDir}
    (hok : PlainTarget d name → Q (.done ()) (d.insert name (.file content)))
    (hold : canFail A ∨ ¬ PlainTarget d name → ∀ e, Q (.raised e) d)
    (hnew : PlainTarget d name → canFail A → ∀ e, Q (.raised e) (d.insert name (.file content)))
    (hkill : canKill A → Q .killed d)
    (hkill' : PlainTarget d name → canKill A → Q .killed (d.insert name (.file content))) :
    wp A (atomicWriteBytes name content) Q d := by
  have hwrite : PlainTarget d name →
      wp A ((call (.io "write metadata" [name]) barrier).bind fun _ =>
        (call (.io "rename metadata" [name]) (replaceFile name content)).bind fun _ =>
        syncDirectory []) Q d := by
    intro hplain
    have hreplace : (match d[name]? with
        | some (.directory _) => ((.error .other : Except IoKind Unit), d)
        | _ => (.ok (), d.insert name (.file content))) = (.ok (), d.insert name (.file content)) := by
      cases hd : d[name]? with
      | none => rfl
      | some node =>
        cases node with
        | directory m => cases hplain _ hd
        | file c => rfl
        | special n => rfl
    rw [wp_bind]
    refine wp_call_barrier ?_ (fun hf => hold (.inl hf) _) hkill
    rw [andThen_done, wp_bind]
    refine wp_call_atomic hreplace ?_ (fun hf => hold (.inl hf) _) hkill
    rw [andThen_done]
    exact wp_call_barrier (hok hplain) (fun hf => hnew hplain hf _) (hkill' hplain)
  rw [atomicWriteBytes, symlinkMetadata, wp_bind]
  refine wp_query ?_ (fun hf => hold (.inl hf) _) hkill
  rw [andThen_done]
  cases hd : d[name]? with
  | none => exact hwrite fun node h => by rw [hd] at h; cases h
  | some node =>
    cases node with
    | file c =>
      refine hwrite fun node h => ?_
      rw [hd] at h
      cases h
      rfl
    | directory m =>
      exact hold (.inr fun h => by cases h _ hd) _
    | special n =>
      exact hold (.inr fun h => by cases h _ hd) _

/-- `atomic_write_metadata`. -/
def atomicWriteMetadata (name : OsName) (m : SegmentMetadata) :
    Prog StreamDir Turn StorageError Unit :=
  atomicWriteBytes name (.metadata m)

/-- `capture_time_path`. -/
def captureTimePath (finalizedName : Str) : OsName :=
  .str (finalizedName ++ ".zone.json".toList)

/-- `write_capture_time`. -/
def writeCaptureTime (finalizedName : Str) (t : CaptureTime) :
    Prog StreamDir Turn StorageError Unit :=
  atomicWriteBytes (captureTimePath finalizedName) (.captureTime t)

end SolstoneTmux
