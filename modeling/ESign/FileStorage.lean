import Mathlib.Logic.Equiv.List
import ESign.ObjectKeys
import ESign.Previews

/-! The file system driver of object storage, shared by the processes of the API and the worker.
An object is two files, its body and a sidecar, and a put or a delete is several steps between
which any other call may run or its process may stop. A file is written under a name of its own
and renamed, so it is there at once or not at all; what a stop leaves behind is of no key. -/
namespace ESign.FileStorage
open JsText PosixPath ObjectCheckpointStore ObjectKeys StoreProgram StoreProgram.Fallible StoreProgram.Outline

abbrev Bytes := List UInt8

structure ObjectSidecar where
  contentType : Utf16
  sha256Digest : Utf16
  sizeBytes : Nat
  storedAt : Date
  deriving DecidableEq

abbrev Files := Utf16 → Option Bytes

/-- `failure` is an error of the file system, if there is one. -/
structure Input where
  now : Date
  failure : Option AppError

inductive Write where
  | writeAtomic (target : Utf16) (data : Bytes)
  | rm (target : Utf16)

def Files.set (target : Utf16) (data : Option Bytes) (files : Files) : Files :=
  fun path => if path = target then data else files path

def Write.exec (w : Write) (files : Files) (i : Input) : Files × Except AppError Unit :=
  match i.failure with
  | some error => (files,.error error)
  | none => match w with
    | .writeAtomic target data => (files.set target (some data),.ok ())
    | .rm target => (files.set target none,.ok ())

/-- The root is a directory below the root of the file system. A sidecar is read back as it was
written, and a digest is a text of 64 hexadecimal digits. -/
structure Settings where
  cwd : Utf16
  root : Utf16
  below : resolve cwd [root] ≠ [47]
  sha256Hex : Bytes → Utf16
  hex : ∀ body, isSha256Hex (sha256Hex body) = true
  stringify : ObjectSidecar → Bytes
  parse : Bytes → Option ObjectSidecar
  parsed : ∀ sidecar, parse (stringify sidecar) = some sidecar

/-- A sidecar may be written as the number that stands for its fields. -/
def sidecarCode (s : ObjectSidecar) : List ℕ × List ℕ × ℕ × ℤ :=
  (s.contentType.map UInt16.toNat,s.sha256Digest.map UInt16.toNat,s.sizeBytes,s.storedAt)

def ofSidecarCode (code : List ℕ × List ℕ × ℕ × ℤ) : ObjectSidecar :=
  ⟨code.1.map UInt16.ofNat,code.2.1.map UInt16.ofNat,code.2.2.1,code.2.2.2⟩

theorem sidecarCoded (s : ObjectSidecar) : ofSidecarCode (sidecarCode s) = s := by
  have units (text : Utf16) : (text.map UInt16.toNat).map UInt16.ofNat = text := by
    rw [List.map_map]
    exact List.map_id'' (fun u => UInt16.ofNat_toNat) text
  simp only [sidecarCode,ofSidecarCode,units]

example : Nonempty Settings := by
  refine ⟨utf16 "/",utf16 "objects",by decide,fun _ => List.replicate 64 48,fun _ => by decide,
    fun s => List.replicate (Encodable.encode (sidecarCode s)) 0,
    fun data => (Encodable.decode data.length).map ofSidecarCode,fun s => ?_⟩
  rw [List.length_replicate,Encodable.encodek,Option.map_some,sidecarCoded]

abbrev FileCase (α : Type) := Fallible Files Write Input AppError α

structure PutObjectInput where
  organizationId : OpaqueId
  key : Utf16
  body : Bytes
  contentType : Utf16
  expectedSha256Digest : Option Utf16
  maxBytes : Option Nat

structure StoredObjectMetadata where
  key : Utf16
  contentType : Utf16
  sizeBytes : Nat
  sha256Digest : Utf16
  deriving DecidableEq

structure FetchedObject where
  body : Bytes
  contentType : Utf16
  sha256Digest : Utf16
  sizeBytes : Nat
  deriving DecidableEq

def metaSuffix : Utf16 := utf16 ".meta.json"

def missingFile : AppError := .externalService [("code","ENOENT")]

/-- The last segment of a path, which tells what may be in the file. -/
def nameOf (path : Utf16) : Utf16 := (path.reverse.takeWhile (· ≠ 47)).reverse

section

variable (settings : Settings)

def bodyPath (key : Utf16) : Except AppError Utf16 := resolveUnderRoot settings.cwd settings.root key

def metaPath (key : Utf16) : Except AppError Utf16 := do
  let path ← bodyPath settings key
  .ok (path ++ metaSuffix)

/-- Whatever goes wrong while the sidecar is read, there is none. -/
def sidecarAt (key : Utf16) (files : Files) (i : Input) : Option ObjectSidecar :=
  match metaPath settings key with
  | .error _ => none
  | .ok path => if i.failure.isSome then none else (files path).bind settings.parse

def readSidecar (key : Utf16) : FileCase (Option ObjectSidecar) := get (sidecarAt settings key)

def readFile (path : Utf16) (files : Files) (i : Input) : Except AppError Bytes :=
  i.failure.elim ((files path).elim (.error missingFile) .ok) .error

def putObject (input : PutObjectInput) : FileCase StoredObjectMetadata := do
  ensure (input.maxBytes.all (fun most => input.body.length ≤ most)) (.validation [("reason","payload_too_large")])
  let key ← lift (ObjectKeys.tenantObjectKey input.organizationId input.key)
  let sha256Digest := settings.sha256Hex input.body
  ensure (input.expectedSha256Digest.all (fun expected => expected = sha256Digest))
    (.integrity [("reason","object_digest_mismatch"),("code","FINAL_OBJECT_INTEGRITY_FAILURE")])
  let existing ← readSidecar settings key
  match existing with
  | some sidecar => do
      ensure (sidecar.sha256Digest = sha256Digest) (.integrity [("reason","immutable_key_conflict")])
      pure ⟨key,input.contentType,input.body.length,sha256Digest⟩
  | none => do
      let path ← lift (bodyPath settings key)
      perform (.writeAtomic path input.body)
      let now ← get (fun _ i => i.now)
      perform (.writeAtomic (path ++ metaSuffix)
        (settings.stringify ⟨input.contentType,sha256Digest,input.body.length,now⟩))
      pure ⟨key,input.contentType,input.body.length,sha256Digest⟩

def getObject (organizationId : OpaqueId) (key : Utf16) : FileCase (Option FetchedObject) := do
  lift (assertTenantObjectKey organizationId key)
  let sidecar ← readSidecar settings key
  match sidecar with
  | none => pure none
  | some sidecar => do
      let path ← lift (bodyPath settings key)
      let present ← get (fun files i => i.failure.isNone && (files path).isSome)
      if present then do
        let read ← get (readFile path)
        let body ← lift read
        pure (some ⟨body,sidecar.contentType,sidecar.sha256Digest,sidecar.sizeBytes⟩)
      else pure none

def deleteObject (organizationId : OpaqueId) (key : Utf16) : FileCase Unit := do
  lift (assertTenantObjectKey organizationId key)
  ensure ((tenantObjectKeyPrefix organizationId).isPrefixOf key) (.integrity [("reason","object_key_tenant_mismatch")])
  let path ← lift (bodyPath settings key)
  perform (.rm path)
  perform (.rm (path ++ metaSuffix))

inductive ObjectKind where
  | revisions | artifacts | signatures

def ObjectKind.text : ObjectKind → Utf16
  | .revisions => utf16 "revisions/"
  | .artifacts => utf16 "artifacts/"
  | .signatures => utf16 "signatures/"

def digestObjectKey (organizationId : OpaqueId) (kind : ObjectKind) (sha256Digest : Utf16) : Except AppError Utf16 := do
  check (isSha256Hex sha256Digest) (.integrity [("reason","invalid_sha256_digest")])
  ObjectKeys.tenantObjectKey organizationId (kind.text ++ sha256Digest)

inductive Request where
  | put (input : PutObjectInput)
  | get (organizationId : OpaqueId) (key : Utf16)
  | delete (organizationId : OpaqueId) (key : Utf16)

inductive Answer where
  | stored (metadata : StoredObjectMetadata)
  | fetched (object : Option FetchedObject)
  | deleted
  deriving DecidableEq

def startRequest : Request → FileCase Answer
  | .put input => do pure (.stored (← putObject settings input))
  | .get organizationId key => do pure (.fetched (← getObject settings organizationId key))
  | .delete organizationId key => do
      deleteObject settings organizationId key
      pure .deleted

def storage : System Files Write Input (Except AppError Unit) Request (Except AppError Answer) where
  exec := Write.exec
  admits _ _ := true
  start := startRequest settings

inductive Placed (input : PutObjectInput) : Prop where
  | digest (kind : ObjectKind)
      (named : digestObjectKey input.organizationId kind (settings.sha256Hex input.body) = .ok input.key)
  | checkpoint (documentId : OpaqueId) (sequence : Int)
      (named : input.key = auditCheckpointObjectKey input.organizationId documentId sequence)

/-- The name of the key is not that of a sidecar, and if it is a digest, it is that of the body. -/
structure Fits (key : Utf16) (body : Bytes) : Prop where
  plain : ∀ name, nameOf (withoutTrailingSlash key) ≠ name ++ metaSuffix
  digest : isSha256Hex (nameOf (withoutTrailingSlash key)) = true →
    settings.sha256Hex body = nameOf (withoutTrailingSlash key)

def Request.Fit : Request → Prop
  | .put input =>
      ∀ key, ObjectKeys.tenantObjectKey input.organizationId input.key = .ok key → Fits settings key input.body
  | _ => True

def Request.deletes : Request → Bool
  | .delete _ _ => true
  | _ => false

/-- Fitting puts, gets and, unless objects are to stay, deletes. -/
abbrev calls (stay : Prop) : Scope Files Write Request :=
  Scope.of (fun request => request.Fit settings ∧ (stay → request.deletes = false))

end

abbrev Serving := Config Files Write Input (Except AppError Unit) (Except AppError Answer)

abbrev emptyRoot : Serving := initial (fun _ => none)

theorem nameAppend {front back : Utf16} (free : 47 ∉ back) : nameOf (front ++ back) = nameOf front ++ back := by
  unfold nameOf
  rw [List.reverse_append,List.takeWhile_append_of_pos,List.reverse_append,List.reverse_reverse]
  intro u mem
  rw [decide_eq_true_eq]
  rintro rfl
  exact free (List.mem_reverse.mp mem)

theorem nameBelow (front back : Utf16) : nameOf (front ++ 47 :: back) = nameOf back := by
  unfold nameOf
  rw [List.reverse_append,List.reverse_cons,List.append_assoc,List.takeWhile_append]
  split
  · rename_i whole
    have all : back.reverse.takeWhile (· ≠ 47) = back.reverse := (List.takeWhile_prefix _).eq_of_length whole
    rw [all]
    simp
  · rfl

theorem hexUnits {text : Utf16} (hex : isSha256Hex text = true) : 47 ∉ text ∧ 46 ∉ text ∧ text ≠ [] := by
  obtain ⟨length,units⟩ := Bool.and_eq_true_iff.mp hex
  rw [List.all_eq_true] at units
  refine ⟨fun mem => ?_,fun mem => ?_,fun none => ?_⟩
  · exact absurd (units 47 mem) (by decide)
  · exact absurd (units 46 mem) (by decide)
  · rw [none] at length
    cases length

theorem suffixFree : (47 : UInt16) ∉ metaSuffix ∧ (46 : UInt16) ∈ metaSuffix := by decide

theorem digestNotMeta {digest name : Utf16} (hex : isSha256Hex digest = true) : digest ≠ name ++ metaSuffix := by
  rintro rfl
  exact (hexUnits hex).2.1 (List.mem_append_right _ suffixFree.2)

section

variable {settings : Settings}

variable (settings) in
theorem pathOf {key : Utf16} (safe : SafeKey key) :
    bodyPath settings key = .ok (resolve settings.cwd [settings.root] ++ 47 :: withoutTrailingSlash key) := by
  have named := namedSegments safe
  have clean := safe.segments
  rw [← named] at clean
  have some : (key.splitOn 47).filter (· ≠ []) ≠ [] := by
    rw [named]
    exact List.splitOn_ne_nil _ _
  have candidate := resolvedBelow settings.below (fun _ mem => slashFree mem) clean some
  rw [named,List.intercalate_splitOn] at candidate
  have under : (resolve settings.cwd [settings.root] ++ [47]).isPrefixOf
      (resolve settings.cwd (resolve settings.cwd [settings.root] :: key.splitOn 47)) = true := by
    rw [candidate,List.isPrefixOf_iff_prefix]
    exact ⟨_,List.append_assoc _ _ _⟩
  rw [bodyPath,resolveUnderRoot,under,Bool.or_true,candidate]
  rfl

theorem pathName {key path : Utf16} (safe : SafeKey key) (ok : bodyPath settings key = .ok path) :
    nameOf path = nameOf (withoutTrailingSlash key) := by
  rw [pathOf settings safe] at ok
  cases ok
  exact nameBelow _ _

theorem returnedEnd {organizationId : OpaqueId} {relativeKey key : Utf16} (head : relativeKey.head? ≠ some 47)
    (returned : ObjectKeys.tenantObjectKey organizationId relativeKey = .ok key) :
    ∃ front, key = front ++ relativeKey := by
  have trimmed : relativeKey.dropWhile (· = 47) = relativeKey := by
    cases relativeKey with
    | nil => rfl
    | cons u rest =>
      have other : u ≠ 47 := fun same => head (by rw [same]; rfl)
      rw [List.dropWhile_cons_of_neg (by simpa using other)]
  rw [ObjectKeys.tenantObjectKey,trimmed,thenOk] at returned
  obtain ⟨-,returned⟩ := returned
  split at returned
  · obtain ⟨-,same⟩ := thenOk.mp returned
    cases same
    exact ⟨[],rfl⟩
  · obtain ⟨-,same⟩ := thenOk.mp returned
    cases same
    exact ⟨_,rfl⟩

theorem lastSegment {key name : Utf16} (front : Utf16) (free : 47 ∉ name) (solid : name ≠ [])
    (shape : key = front ++ 47 :: name) : nameOf (withoutTrailingSlash key) = name := by
  have untrimmed : withoutTrailingSlash key = key := by
    refine if_neg fun slash => ?_
    rw [shape,List.getLast?_append_of_ne_nil _ (List.cons_ne_nil _ _),List.getLast?_cons_of_ne_nil solid] at slash
    exact free (List.mem_of_getLast? slash)
  rw [untrimmed,shape,nameBelow]
  exact @nameAppend [] name free

theorem digestKey {organizationId : OpaqueId} {kind : ObjectKind} {digest key : Utf16}
    (named : digestObjectKey organizationId kind digest = .ok key) :
    ObjectKeys.tenantObjectKey organizationId key = .ok key ∧ nameOf (withoutTrailingSlash key) = digest := by
  obtain ⟨hex,returned⟩ := thenOk.mp named
  obtain ⟨free,-,solid⟩ := hexUnits (checkOk.mp hex)
  obtain ⟨front,shape⟩ := returnedEnd (by cases kind <;> exact fun h => by cases h) returned
  obtain ⟨word,text⟩ : ∃ word, kind.text = word ++ [47] := by
    cases kind with
    | revisions => exact ⟨utf16 "revisions",by decide⟩
    | artifacts => exact ⟨utf16 "artifacts",by decide⟩
    | signatures => exact ⟨utf16 "signatures",by decide⟩
  refine ⟨tenantKeyKept (returnedKey returned),lastSegment (front ++ word) free solid ?_⟩
  simp [shape,text]

theorem checkpointKey {organizationId documentId : OpaqueId} {sequence : Int} {key : Utf16}
    (returned : ObjectKeys.tenantObjectKey organizationId (auditCheckpointObjectKey organizationId documentId sequence) =
      .ok key) :
    nameOf (withoutTrailingSlash key) = (JsNumber.ofInt sequence).text ++ utf16 ".json" := by
  obtain ⟨front,shape⟩ := returnedEnd (by intro h; cases h) returned
  refine lastSegment (front ++ (tenantObjectKeyPrefix organizationId ++ (utf16 "audit-checkpoints/" ++ documentId.text)))
    ?_ ?_ ?_
  · rw [List.mem_append]
    rintro (number | suffix)
    · exact absurd (JsNumber.units _ _ number) (by decide)
    · revert suffix
      decide
  · exact List.append_ne_nil_of_right_ne_nil _ (by decide)
  · rw [shape,keySplit,documentPrefix,ObjectCheckpointStore.tenantObjectKey,checkpointPrefix]
    have slash : utf16 "/" = [47] := by decide
    simp [slash]

theorem checkpointFits {organizationId documentId : OpaqueId} {sequence : Int} {key : Utf16} {body : Bytes}
    (returned : ObjectKeys.tenantObjectKey organizationId (auditCheckpointObjectKey organizationId documentId sequence) =
      .ok key) : Fits settings key body where
  plain name same := by
    have suffix : metaSuffix = utf16 ".meta" ++ utf16 ".json" := by decide
    rw [checkpointKey returned,suffix,← List.append_assoc] at same
    have text := List.append_cancel_right same
    have unit : (109 : UInt16) ∈ (JsNumber.ofInt sequence).text := by
      rw [text]
      exact List.mem_append_right _ (by decide)
    exact absurd (JsNumber.units _ _ unit) (by decide)
  digest hex := by
    rw [checkpointKey returned] at hex
    exact absurd (List.mem_append_right _ (by decide)) (hexUnits hex).2.1

theorem placedFits {input : PutObjectInput} (placed : Placed settings input) : (Request.put input).Fit settings := by
  intro key returned
  rcases placed with ⟨kind,named⟩ | ⟨documentId,sequence,named⟩
  · obtain ⟨kept,name⟩ := digestKey named
    rw [kept] at returned
    cases returned
    refine ⟨fun other same => ?_,fun _ => name.symm⟩
    rw [name] at same
    exact digestNotMeta (settings.hex input.body) same
  · rw [named] at returned
    exact checkpointFits returned

/-- A file under a digest has that digest. A sidecar is that of a body, and beside a digest, of a
body of that digest. -/
structure SoundFile (settings : Settings) (path : Utf16) (data : Bytes) : Prop where
  digest : isSha256Hex (nameOf path) = true → settings.sha256Hex data = nameOf path
  sidecar : ∀ beside, path = beside ++ metaSuffix → ∃ sidecar put, data = settings.stringify sidecar ∧
    sidecar.sha256Digest = settings.sha256Hex put ∧ sidecar.sizeBytes = put.length ∧
    (isSha256Hex (nameOf beside) = true → nameOf beside = sidecar.sha256Digest)

theorem bodyFile {path : Utf16} {body : Bytes} (plain : ∀ name, nameOf path ≠ name ++ metaSuffix)
    (digest : isSha256Hex (nameOf path) = true → settings.sha256Hex body = nameOf path) :
    SoundFile settings path body where
  digest := digest
  sidecar beside same := by
    rw [same] at plain
    exact absurd (nameAppend suffixFree.1) (plain _)

theorem sidecarFile {path : Utf16} {sidecar : ObjectSidecar} {put : Bytes}
    (digest : sidecar.sha256Digest = settings.sha256Hex put) (size : sidecar.sizeBytes = put.length)
    (named : isSha256Hex (nameOf path) = true → nameOf path = sidecar.sha256Digest) :
    SoundFile settings (path ++ metaSuffix) (settings.stringify sidecar) where
  digest hex := by
    rw [nameAppend suffixFree.1] at hex
    exact absurd rfl (digestNotMeta hex)
  sidecar beside same := by
    cases List.append_cancel_right same
    exact ⟨sidecar,put,rfl,digest,size,named⟩

def Intact (settings : Settings) (files : Files) : Prop :=
  ∀ path data, files path = some data → SoundFile settings path data

def Backed (files : Files) : Prop := ∀ path, (files (path ++ metaSuffix)).isSome = true → (files path).isSome = true

/-- What is known of a write; when objects are to stay, nothing is removed, and a sidecar is
written after its body. -/
def Known (settings : Settings) (stay : Prop) (w : Write) (files : Files) : Prop :=
  match w with
  | .writeAtomic target data => SoundFile settings target data ∧
      (stay → ∀ path, target = path ++ metaSuffix → (files path).isSome = true)
  | .rm _ => ¬ stay

theorem setFound {target path : Utf16} {new : Option Bytes} {data : Bytes} {files : Files}
    (read : files.set target new path = some data) : path = target ∧ new = some data ∨ files path = some data := by
  unfold Files.set at read
  split at read
  · rename_i here
    exact .inl ⟨here,read⟩
  · exact .inr read

theorem setGrows {target path : Utf16} {data : Bytes} {files : Files} (there : (files path).isSome = true) :
    (files.set target (some data) path).isSome = true := by
  unfold Files.set
  split
  · rfl
  · exact there

variable {stay : Prop}

theorem writeKeeps {target : Utf16} {data : Bytes} {files : Files} (intact : Intact settings files)
    (backed : stay → Backed files) (known : Known settings stay (.writeAtomic target data) files) :
    Intact settings (files.set target (some data)) ∧ (stay → Backed (files.set target (some data))) := by
  obtain ⟨sound,after⟩ := known
  refine ⟨fun path found read => ?_,fun s path there => ?_⟩
  · rcases setFound read with ⟨rfl,same⟩ | old
    · cases same
      exact sound
    · exact intact path found old
  · obtain ⟨found,read⟩ := Option.isSome_iff_exists.mp there
    rcases setFound read with ⟨here,-⟩ | old
    · exact setGrows (after s path here.symm)
    · exact setGrows (backed s path (Option.isSome_of_eq_some old))

theorem rmKeeps {target : Utf16} {files : Files} (intact : Intact settings files) :
    Intact settings (files.set target none) := by
  intro path found read
  rcases setFound read with ⟨-,same⟩ | old
  · cases same
  · exact intact path found old

variable (settings stay) in
def fileOutline : Outline (storage settings) (calls settings stay) where
  Inv files := Intact settings files ∧ (stay → Backed files)
  Rel a b := stay → ∀ path, (a path).isSome = true → (b path).isSome = true
  Pre := Known settings stay
  refl _ _ _ there := there
  trans left right s path there := right s path (left s path there)
  keep {w files} i inv pre _ := by
    obtain ⟨intact,backed⟩ := inv
    cases failed : i.failure with
    | some error =>
      have same : ((storage settings).exec w files i).1 = files := by simp [storage,Write.exec,failed]
      rw [same]
      exact ⟨⟨intact,backed⟩,fun _ _ there => there⟩
    | none =>
      cases w with
      | writeAtomic target data =>
        have same : ((storage settings).exec (.writeAtomic target data) files i).1 = files.set target (some data) := by
          simp [storage,Write.exec,failed]
        rw [same]
        exact ⟨writeKeeps intact backed pre,fun _ _ => setGrows⟩
      | rm target =>
        have same : ((storage settings).exec (.rm target) files i).1 = files.set target none := by
          simp [storage,Write.exec,failed]
        rw [same]
        exact ⟨⟨rmKeeps intact,fun s => absurd s pre⟩,fun s => absurd s pre⟩

theorem ensuresSidecar {key : Utf16} {post : Option ObjectSidecar → Files → Prop} {files : Files}
    (h : ∀ files' i, (fileOutline settings stay).Past files files' → (fileOutline settings stay).Inv files' →
      post (sidecarAt settings key files' i) files') :
    (fileOutline settings stay).Ensures (readSidecar settings key) post files :=
  ensuresGet fun files' past inv i => h files' i past inv

theorem sidecarFound {key path : Utf16} {files : Files} {i : Input} {sidecar : ObjectSidecar}
    (ok : bodyPath settings key = .ok path) (found : sidecarAt settings key files i = some sidecar) :
    ∃ data, files (path ++ metaSuffix) = some data ∧ settings.parse data = some sidecar := by
  have named : metaPath settings key = .ok (path ++ metaSuffix) := by
    rw [metaPath,ok]
    rfl
  rw [sidecarAt,named] at found
  dsimp only at found
  split at found
  · cases found
  · exact Option.bind_eq_some_iff.mp found

theorem sidecarSound {key path : Utf16} {files : Files} {i : Input} {sidecar : ObjectSidecar}
    (intact : Intact settings files) (ok : bodyPath settings key = .ok path)
    (found : sidecarAt settings key files i = some sidecar) :
    (isSha256Hex (nameOf path) = true → nameOf path = sidecar.sha256Digest) ∧
      ∃ put, settings.sha256Hex put = sidecar.sha256Digest ∧ sidecar.sizeBytes = put.length := by
  obtain ⟨data,read,parsed⟩ := sidecarFound ok found
  obtain ⟨written,put,rfl,digest,size,named⟩ := (intact _ _ read).sidecar path rfl
  rw [settings.parsed] at parsed
  cases parsed
  exact ⟨named,put,digest.symm,size⟩

def Stored (settings : Settings) (key : Utf16) (files : Files) : Prop :=
  ∃ path, bodyPath settings key = .ok path ∧ (files path).isSome = true ∧ (files (path ++ metaSuffix)).isSome = true

theorem storedLater (s : stay) {key : Utf16} {files files' : Files} (stored : Stored settings key files)
    (rel : (fileOutline settings stay).Rel files files') : Stored settings key files' := by
  obtain ⟨path,ok,body,sidecar⟩ := stored
  exact ⟨path,ok,rel s _ body,rel s _ sidecar⟩

theorem writtenThere {target : Utf16} {data : Bytes} {files : Files} {i : Input}
    (ok : (Write.exec (.writeAtomic target data) files i).2 = .ok ()) :
    ((Write.exec (.writeAtomic target data) files i).1 target).isSome = true := by
  unfold Write.exec at ok ⊢
  cases failed : i.failure with
  | some error =>
    rw [failed] at ok
    cases ok
  | none => simp [Files.set]

theorem fileRead {path : Utf16} {files : Files} {i : Input} {body : Bytes} (ok : readFile path files i = .ok body) :
    files path = some body := by
  unfold readFile at ok
  cases failed : i.failure with
  | some error => rw [failed] at ok; cases ok
  | none =>
    rw [failed] at ok
    cases read : files path with
    | none => rw [read] at ok; cases ok
    | some data => rw [read] at ok; cases ok; rfl

theorem ensuresPut (input : PutObjectInput) (fit : (Request.put input).Fit settings) {files : Files} :
    (fileOutline settings stay).Ensures (putObject settings input)
      (fun metadata files' => ObjectKeys.tenantObjectKey input.organizationId input.key = .ok metadata.key ∧
        metadata.sha256Digest = settings.sha256Hex input.body ∧ (stay → Stored settings metadata.key files')) files := by
  refine ensuresBind (ensuresEnsure fun _ => ensuresBind (ensuresLift fun key tenant => ?_))
  have safe := safeKey (tenantOk.mp (returnedKey tenant)).1
  have path := pathOf settings safe
  obtain ⟨plain,digest⟩ := fit key tenant
  rw [← pathName safe path] at plain digest
  refine ensuresBind (ensuresEnsure fun _ => ensuresBind (ensuresSidecar fun files₁ i past₁ inv₁ => ?_))
  cases found : sidecarAt settings key files₁ i with
  | some sidecar =>
    refine ensuresBind (ensuresEnsure fun _ => ensuresPure ⟨tenant,rfl,fun s => ?_⟩)
    obtain ⟨data,read,-⟩ := sidecarFound path found
    have there := Option.isSome_of_eq_some read
    exact ⟨_,path,inv₁.2 s _ there,there⟩
  | none =>
    refine ensuresBind (ensuresLift fun target same => ?_)
    rw [path] at same
    cases same
    refine ensuresBind (ensuresPerform fun files₂ _ _ => ⟨⟨bodyFile plain digest,fun _ other same => ?_⟩,?_⟩)
    · rw [same] at plain
      exact absurd (nameAppend suffixFree.1) (plain _)
    intro j wrote _ _
    have there := writtenThere wrote
    refine ensuresBind (ensuresGet fun files₃ past₃ _ k => ensuresBind (ensuresPerform fun files₄ past₄ _ => ?_))
    have still := fun s => past₄.2 s _ (past₃.2 s _ there)
    refine ⟨⟨sidecarFile rfl rfl fun hex => (digest hex).symm,fun s other same => ?_⟩,
      fun l wrote' past₅ _ => ensuresPure ⟨tenant,rfl,fun s => ?_⟩⟩
    · cases List.append_cancel_right same
      exact still s
    · exact ⟨_,path,past₅.2 s _ (still s),writtenThere wrote'⟩

theorem ensuresFetch (organizationId : OpaqueId) (key : Utf16) {files : Files} :
    (fileOutline settings stay).Ensures (getObject settings organizationId key) (fun _ _ => True) files := by
  refine ensuresBind (ensuresLift fun _ _ => ensuresBind (ensuresSidecar fun files₁ i _ _ => ?_))
  cases sidecarAt settings key files₁ i with
  | none => exact ensuresPure trivial
  | some sidecar =>
    refine ensuresBind (ensuresLift fun path _ => ensuresBind (ensuresGet fun files₂ _ _ j => ?_))
    split
    · exact ensuresBind (ensuresGet fun _ _ _ _ => ensuresBind (ensuresLift fun _ _ => ensuresPure trivial))
    · exact ensuresPure trivial

theorem ensuresDelete (organizationId : OpaqueId) (key : Utf16) (leaves : ¬ stay) {files : Files} :
    (fileOutline settings stay).Ensures (deleteObject settings organizationId key) (fun _ _ => True) files := by
  refine ensuresBind
    (ensuresLift fun _ _ => ensuresBind (ensuresEnsure fun _ => ensuresBind (ensuresLift fun path _ => ?_)))
  refine ensuresBind (ensuresPerform fun _ _ _ => ⟨leaves,fun _ _ _ _ => ?_⟩)
  exact ensuresPerform fun _ _ _ => ⟨leaves,fun _ _ _ _ => trivial⟩

theorem fileStarts (request : Request) (files : Files) (meets : (calls settings stay).allow request)
    (_ : (storage settings).admits files request = true) (inv : (fileOutline settings stay).Inv files) :
    (fileOutline settings stay).Holds ((storage settings).start request) (fun _ _ => True) files := by
  have ensured : (fileOutline settings stay).Ensures ((storage settings).start request) (fun _ _ => True) files := by
    cases request with
    | put input => exact ensuresBind (ensuresMono (fun _ _ _ => ensuresPure trivial) (ensuresPut input meets.1))
    | get organizationId key =>
      exact ensuresBind (ensuresMono (fun _ _ _ => ensuresPure trivial) (ensuresFetch organizationId key))
    | delete organizationId key =>
      have leaves : ¬ stay := fun s => Bool.noConfusion (meets.2 s)
      exact ensuresBind (ensuresMono (fun _ _ _ => ensuresPure trivial) (ensuresDelete organizationId key leaves))
  exact ensuresHolds ensured inv

theorem emptySound : (fileOutline settings stay).Sound emptyRoot :=
  initialSound ⟨fun _ _ read => (by cases read),fun _ _ there => (by cases there)⟩

section

variable {inputs : Input → Prop} {c c' : Serving} {own : List (Performed Write Files Input)}

/-- What is known of an object that was found under a key. -/
structure Fetched (settings : Settings) (key : Utf16) (object : FetchedObject) : Prop where
  size : ∃ put, settings.sha256Hex put = object.sha256Digest ∧ object.sizeBytes = put.length
  digest : isSha256Hex (nameOf (withoutTrailingSlash key)) = true →
    nameOf (withoutTrailingSlash key) = object.sha256Digest ∧ settings.sha256Hex object.body = object.sha256Digest

theorem fetchedAmid {organizationId : OpaqueId} {key : Utf16} {object : FetchedObject}
    (sound : (fileOutline settings stay).Sound c)
    (run : Amid (storage settings) (calls settings stay) inputs c (getObject settings organizationId key) own
      (.ok (some object)) c') : Fetched settings key object := by
  obtain ⟨_,tenant,run⟩ := amidThenLift run
  have safe := safeKey (tenantOk.mp tenant).1
  have path := pathOf settings safe
  obtain ⟨c₁,i,-,first,run⟩ := amidThenGet run
  have sound₁ := (runSound fileStarts sound first).1
  cases found : sidecarAt settings key c₁.store i with
  | none =>
    rw [found] at run
    cases run
  | some sidecar =>
    rw [found] at run
    obtain ⟨named,put,digest,size⟩ := sidecarSound sound₁.inv.1 path found
    obtain ⟨target,same,run⟩ := amidThenLift run
    rw [path] at same
    cases same
    obtain ⟨c₂,j,-,second,run⟩ := amidThenGet run
    split at run
    · obtain ⟨c₃,k,-,third,run⟩ := amidThenGet run
      obtain ⟨body,read,run⟩ := amidThenLift run
      cases run
      have sound₃ := (runSound fileStarts sound₁ (second.trans third)).1
      rw [pathName safe path] at named
      refine ⟨⟨put,digest,size⟩,fun hex => ⟨named hex,?_⟩⟩
      have whole := (sound₃.inv.1 _ body (fileRead read)).digest
      rw [pathName safe path] at whole
      exact (whole hex).trans (named hex)
    · cases run

theorem performedAmid (calm : ∀ i, inputs i → i.failure = none) {β : Type} {w : Write} {f : Unit → FileCase β}
    {value : Except AppError β} (run : Amid (storage settings) (calls settings stay) inputs c
      (perform w >>= f : FileCase β) own value c') :
    ∃ c₁ own', Amid (storage settings) (calls settings stay) inputs c₁ (f ()) own' value c' := by
  cases run with
  | write i given others rest =>
    have done : ∀ files, ((storage settings).exec w files i).2 = .ok () := by
      intro files
      cases w <;> simp [storage,Write.exec,calm i given]
    rw [done] at rest
    exact ⟨_,_,rest⟩

theorem storedAmid {input : PutObjectInput} {value : Except AppError StoredObjectMetadata}
    (sound : (fileOutline settings stay).Sound c) {kind : ObjectKind}
    (addressed : digestObjectKey input.organizationId kind (settings.sha256Hex input.body) = .ok input.key)
    (small : input.maxBytes.all (fun most => input.body.length ≤ most) = true)
    (expected : input.expectedSha256Digest.all (fun digest => digest = settings.sha256Hex input.body) = true)
    (calm : ∀ i, inputs i → i.failure = none)
    (run : Amid (storage settings) (calls settings stay) inputs c (putObject settings input) own value c') :
    value = .ok ⟨input.key,input.contentType,input.body.length,settings.sha256Hex input.body⟩ := by
  obtain ⟨kept,name⟩ := digestKey addressed
  have safe := safeKey (tenantOk.mp (returnedKey kept)).1
  have path := pathOf settings safe
  have run := amidPassed small run
  have run := amidPassedOn kept run
  have run := amidPassed expected run
  obtain ⟨c₁,i,-,first,run⟩ := amidThenGet run
  have sound₁ := (runSound fileStarts sound first).1
  cases found : sidecarAt settings input.key c₁.store i with
  | some sidecar =>
    rw [found] at run
    have digest := (sidecarSound sound₁.inv.1 path found).1
    rw [pathName safe path,name] at digest
    have run := amidPassed (decide_eq_true (digest (settings.hex input.body)).symm) run
    exact (amidLift run).2.2
  | none =>
    rw [found] at run
    have run := amidPassedOn path run
    obtain ⟨c₂,own₂,run⟩ := performedAmid calm run
    obtain ⟨c₃,j,-,-,run⟩ := amidThenGet run
    obtain ⟨c₄,own₄,run⟩ := performedAmid calm run
    exact (amidLift run).2.2

theorem keptAmid (s : stay) {organizationId : OpaqueId} {key : Utf16} {value : Except AppError (Option FetchedObject)}
    (sound : (fileOutline settings stay).Sound c) (tenant : assertTenantObjectKey organizationId key = .ok ())
    (stored : Stored settings key c.store) (calm : ∀ i, inputs i → i.failure = none)
    (run : Amid (storage settings) (calls settings stay) inputs c (getObject settings organizationId key) own value c') :
    ∃ object, value = .ok (some object) := by
  have run := amidPassedOn tenant run
  obtain ⟨c₁,i,given,first,run⟩ := amidThenGet run
  obtain ⟨sound₁,rel₁⟩ := runSound fileStarts sound first
  obtain ⟨path,ok,body,sidecar⟩ := storedLater s stored rel₁
  obtain ⟨data,read⟩ := Option.isSome_iff_exists.mp sidecar
  obtain ⟨written,-,rfl,-⟩ := (sound₁.inv.1 _ _ read).sidecar path rfl
  have named : metaPath settings key = .ok (path ++ metaSuffix) := by
    rw [metaPath,ok]
    rfl
  have found : sidecarAt settings key c₁.store i = some written := by
    rw [sidecarAt,named]
    simp [calm i given,read,settings.parsed]
  rw [found] at run
  have run := amidPassedOn ok run
  obtain ⟨c₂,j,calm₂,second,run⟩ := amidThenGet run
  obtain ⟨sound₂,rel₂⟩ := runSound fileStarts sound₁ second
  have body₂ := rel₂ s _ body
  rw [calm j calm₂,body₂] at run
  obtain ⟨c₃,k,calm₃,third,run⟩ := amidThenGet run
  obtain ⟨data,read₃⟩ := Option.isSome_iff_exists.mp ((runSound fileStarts sound₂ third).2 s _ body₂)
  have whole : readFile path c₃.store k = .ok data := by
    rw [readFile,calm k calm₃,read₃]
    rfl
  have run := amidPassedOn whole run
  exact ⟨_,(amidLift run).2.2⟩

end

end

/-- What is known of the calls that run or stop among others. -/
structure ObjectsExact (settings : Settings) : Prop where
  placed : ∀ input, Placed settings input → (Request.put input).Fit settings
  fetched : ∀ c, Run (storage settings) (calls settings False) emptyRoot c → ∀ inputs organizationId key own object c',
    Amid (storage settings) (calls settings False) inputs c ((storage settings).start (.get organizationId key)) own
      (.ok (.fetched (some object))) c' → Fetched settings key object
  stored : ∀ c, Run (storage settings) (calls settings False) emptyRoot c → ∀ inputs input kind own value c',
    digestObjectKey input.organizationId kind (settings.sha256Hex input.body) = .ok input.key →
    input.maxBytes.all (fun most => input.body.length ≤ most) = true →
    input.expectedSha256Digest.all (fun digest => digest = settings.sha256Hex input.body) = true →
    (∀ i, inputs i → i.failure = none) →
    Amid (storage settings) (calls settings False) inputs c ((storage settings).start (.put input)) own value c' →
    value = .ok (.stored ⟨input.key,input.contentType,input.body.length,settings.sha256Hex input.body⟩)
  kept : ∀ c, Run (storage settings) (calls settings True) emptyRoot c → ∀ inputs input own metadata c',
    (Request.put input).Fit settings →
    Amid (storage settings) (calls settings True) inputs c ((storage settings).start (.put input)) own
      (.ok (.stored metadata)) c' →
    ∀ c₁, Run (storage settings) (calls settings True) c' c₁ → ∀ inputs', (∀ i, inputs' i → i.failure = none) →
    ∀ own' value c₂,
      Amid (storage settings) (calls settings True) inputs' c₁
        ((storage settings).start (.get input.organizationId metadata.key)) own' value c₂ →
      ∃ object, value = .ok (.fetched (some object)) ∧ Fetched settings metadata.key object ∧
        (isSha256Hex (nameOf (withoutTrailingSlash metadata.key)) = true →
          settings.sha256Hex object.body = settings.sha256Hex input.body)

/-- However the calls of the processes are interleaved, fail or stop halfway, an object that is
found under a digest has that digest. A put under a digest is in conflict with no other and with
nothing a stop has left, so it can be made again. Where nothing is deleted, every get after an
answered put finds an object, and under a digest one of the digest that was put. -/
theorem objectsExact (settings : Settings) : ObjectsExact settings where
  placed _ := placedFits
  fetched := by
    intro c run inputs organizationId key own object c' amid
    obtain ⟨result,fetch,same⟩ := amidAnswer amid
    cases result with
    | error error => cases same
    | ok found =>
      cases same
      exact fetchedAmid (runSound fileStarts emptySound run).1 fetch
  stored := by
    intro c run inputs input kind own value c' addressed small expected calm amid
    obtain ⟨result,put,rfl⟩ := amidAnswer amid
    rw [storedAmid (runSound fileStarts emptySound run).1 addressed small expected calm put]
    rfl
  kept := by
    intro c run inputs input own metadata c' fit amid c₁ later inputs' calm own' value c₂ got
    have sound := (runSound fileStarts emptySound run).1
    obtain ⟨result,put,same⟩ := amidAnswer amid
    cases result with
    | error error => cases same
    | ok stored =>
      cases same
      obtain ⟨sound',-,post⟩ := amidHolds fileStarts (fun _ _ => trivial) sound (ensuresPut input fit sound.inv) put
      obtain ⟨tenant,-,there⟩ := post _ rfl
      obtain ⟨sound₁,rel⟩ := runSound fileStarts sound' later
      obtain ⟨result,fetch,rfl⟩ := amidAnswer got
      have still := storedLater trivial (there trivial) rel
      obtain ⟨object,rfl⟩ := keptAmid trivial sound₁ (returnedKey tenant) still calm fetch
      have fetched := fetchedAmid sound₁ fetch
      refine ⟨object,rfl,fetched,fun hex => ?_⟩
      obtain ⟨named,whole⟩ := fetched.digest hex
      rw [whole,← named,(fit _ tenant).digest hex]

end ESign.FileStorage
