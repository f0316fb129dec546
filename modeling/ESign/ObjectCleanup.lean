import ESign.Leases
import ESign.Selection
import ESign.TenantObjects

/-! What the cleanup of orphaned objects may take away. Every writer stores an object
before it commits a row with its key, but storing an object that is there already leaves
its age alone, and the reference check and the removal are two steps: between them, and
between the storing and the commit, the other may run. -/
namespace ESign.Tenant
open StoreProgram StoreProgram.Fallible StoreProgram.Resources

section

variable (sha256Hex : Pdf → Digest)

/-- The keys of all rows of the organization. -/
def Referenced (key : ObjectKey) (t : Tenancy) : Prop := ∃ row ∈ t.documents, key ∈ referencedKeys sha256Hex row.2

/-- A write of rows that can leave a document with the key that it had not before. -/
def Adds (w : Write) (key : ObjectKey) : Prop :=
  ∃ i e e', w.run i e = .ok e' ∧ key ∈ referencedKeys sha256Hex e' ∧ key ∉ referencedKeys sha256Hex e

def storedObjects : Resources Tenancy TenantWrite (Except AppError Unit) ObjectKey where
  has t key := (findObject key t).isSome = true
  makes w r key := r = .ok () ∧ ∃ digest, w = .putObject key digest ∨ w = .putCommand key digest
  needs w key := ∃ documentId u, w = .rows documentId u ∧ Adds sha256Hex u key

variable {sha256Hex}

theorem referencedIff {key : ObjectKey} {e : Envelope} : key ∈ referencedKeys sha256Hex e ↔
    (∃ revision ∈ e.revisions, sourceRevisionObjectKey (sha256Hex revision.body) = key) ∨
    (∃ artifact, e.artifact = some artifact ∧ artifactObjectKey (sha256Hex artifact.body) = key) ∨
    ∃ field ∈ e.fields, field.completion.bind FieldCompletion.completionObjectKey = some key := by
  simp [referencedKeys]

theorem addsCases {w : Write} {key : ObjectKey} (adds : Adds sha256Hex w key) : ∃ i e e', w.run i e = .ok e' ∧
    ((∃ revision ∈ e'.revisions, revision ∉ e.revisions ∧ sourceRevisionObjectKey (sha256Hex revision.body) = key) ∨
      (∃ artifact, e'.artifact = some artifact ∧ e.artifact ≠ some artifact ∧
        artifactObjectKey (sha256Hex artifact.body) = key) ∨
      ∃ field ∈ e'.fields, (∀ row ∈ e.fields, row.completion ≠ field.completion) ∧
        field.completion.bind FieldCompletion.completionObjectKey = some key) := by
  obtain ⟨i,e,e',ok,held,absent⟩ := adds
  refine ⟨i,e,e',ok,?_⟩
  rw [referencedIff] at held absent
  rcases held with ⟨revision,among,same⟩ | ⟨artifact,made,same⟩ | ⟨field,among,same⟩
  · exact .inl ⟨revision,among,fun old => absent (.inl ⟨revision,old,same⟩),same⟩
  · exact .inr (.inl ⟨artifact,made,fun old => absent (.inr (.inl ⟨artifact,old,same⟩)),same⟩)
  · exact .inr (.inr ⟨field,among,fun row old kept => absent (.inr (.inr ⟨row,old,by rw [kept]; exact same⟩)),same⟩)

/-! What each write of rows adds. -/

theorem sameKeys {w : Write} {key : ObjectKey} (same : ∀ i e e', w.run i e = .ok e' →
    e'.revisions = e.revisions ∧ e'.artifact = e.artifact ∧ e'.fields = e.fields) : ¬ Adds sha256Hex w key := by
  intro adds
  obtain ⟨i,e,e',ok,⟨revision,among,new,-⟩ | ⟨artifact,made,new,-⟩ | ⟨field,among,new,-⟩⟩ := addsCases adds
  · exact new (by rw [← (same i e e' ok).1]; exact among)
  · exact new (by rw [← (same i e e' ok).2.1]; exact made)
  · exact new field (by rw [← (same i e e' ok).2.2]; exact among) rfl

theorem uploadAdds {u : UploadUnit} {key : ObjectKey} (adds : Adds sha256Hex (.upload u) key) :
    key = sourceRevisionObjectKey (sha256Hex u.revision.body) := by
  obtain ⟨i,e,e',ok,cases⟩ := addsCases adds
  have h := uploadEffect (u := u) ok
  rw [h.revisions,h.artifact,h.fields] at cases
  rcases cases with ⟨revision,among,new,same⟩ | ⟨artifact,made,new,-⟩ | ⟨field,among,new,-⟩
  · rcases List.mem_append.mp among with old | last
    · exact absurd old new
    · rw [← same,List.mem_singleton.mp last]
  · exact absurd made new
  · exact absurd rfl (new field among)

theorem persistAdds {u : PersistUnit} {key : ObjectKey} (adds : Adds sha256Hex (.persist u) key) :
    key = artifactObjectKey (sha256Hex u.loaded.revision.body) := by
  obtain ⟨i,e,e',ok,cases⟩ := addsCases adds
  have ok : u.run e = .ok e' := ok
  have h := persistQuiet ok
  rw [h.1.revisions,h.1.fields] at cases
  rcases cases with ⟨revision,among,new,-⟩ | ⟨artifact,made,new,same⟩ | ⟨field,among,new,-⟩
  · exact absurd among new
  · unfold PersistUnit.run at ok
    split at ok
    · cases ok
      exact absurd made new
    · obtain ⟨e₁,created,logged⟩ := bindOk.mp ok
      obtain ⟨_,_,last⟩ := bindOk.mp created
      cases last
      cases appendEffect logged
      cases made
      exact same.symm
  · exact absurd rfl (new field among)

theorem flattenedCompletion {ids : List Id} {revisionId : Id} {rows : List SignatureField} {field : SignatureField}
    (among : field ∈ flattened ids revisionId rows) : ∃ row ∈ rows, row.completion = field.completion := by
  obtain ⟨row,old,rfl⟩ := List.mem_map.mp among
  refine ⟨row,old,?_⟩
  split <;> rfl

theorem undrawnRevisions {u : FlattenUnit} {e e'} (undrawn : ¬ 0 < u.loaded.pendingFields.length)
    (ok : u.run e = .ok e') :
    e'.revisions = e.revisions := by
  obtain ⟨e₁,first,ok⟩ := bindOk.mp ok
  rw [FlattenUnit.addRevision,if_neg undrawn] at first
  cases first
  obtain ⟨e₂,second,ok⟩ := bindOk.mp ok
  obtain ⟨-,rfl⟩ := updateDocumentOk second
  obtain ⟨_,rfl,-⟩ := addArtifactEffect ok
  rfl

theorem flattenAdds {u : FlattenUnit} {key : ObjectKey} (adds : Adds sha256Hex (.flatten u) key) :
    (key = sourceRevisionObjectKey (sha256Hex u.output) ∧ 0 < u.loaded.pendingFields.length) ∨
    (key = artifactObjectKey (sha256Hex u.output) ∧ u.finalize = true) := by
  obtain ⟨i,e,e',ok,cases⟩ := addsCases adds
  have ok : u.run e = .ok e' := ok
  have h := flattenEffect ok
  rcases cases with ⟨revision,among,new,same⟩ | ⟨artifact,made,new,same⟩ | ⟨field,among,new,-⟩
  · by_cases drawn : 0 < u.loaded.pendingFields.length
    · rcases h.revisions with ⟨-,kept⟩ | ⟨grown,-⟩
      · exact absurd (by rw [← kept]; exact among) new
      · rw [grown] at among
        rcases List.mem_append.mp among with old | last
        · exact absurd old new
        · exact .inl ⟨by rw [← same,List.mem_singleton.mp last],drawn⟩
    · exact absurd (by rw [← undrawnRevisions drawn ok]; exact among) new
  · rw [h.artifact] at made
    split at made
    · rename_i last
      cases had : e.artifact with
      | some old =>
        rw [had] at made new
        exact absurd made new
      | none =>
        rw [had] at made
        cases made
        exact .inr ⟨same.symm,last⟩
    · exact absurd made new
  · rw [h.fields] at among
    obtain ⟨row,old,kept⟩ := flattenedCompletion among
    exact absurd kept (new row old)

theorem completeFrame {u : CompleteUnit} {i e e'} (ok : u.run i e = .ok e') :
    e'.revisions = e.revisions ∧ e'.artifact = e.artifact ∧
      List.Forall₂ (FieldCompleted (u.selected.map SignatureField.id)) e.fields e'.fields := by
  obtain ⟨e₁,first,ok⟩ := bindOk.mp ok
  obtain ⟨rows,rfl,completed⟩ := completeFieldsEffect first
  obtain ⟨e₂,second,ok⟩ := bindOk.mp ok
  obtain ⟨signers,rfl⟩ := markSignedFrame second
  obtain ⟨e₃,third,ok⟩ := bindOk.mp ok
  obtain ⟨sessions,rfl,-⟩ := markCompletedEffect third
  obtain ⟨e₄,fourth,ok⟩ := bindOk.mp ok
  obtain ⟨document,rfl,-⟩ := moveDocumentEffect fourth
  obtain ⟨e₅,fifth,ok⟩ := bindOk.mp ok
  cases appendEffect fifth
  cases publishEffect ok
  exact ⟨rfl,rfl,completed⟩

def inkKeys (signature initials : Option Ink) : List ObjectKey :=
  (signature.toList ++ initials.toList).map (fun png => signatureImageObjectKey png.digest)

theorem completionInk {u : CompleteUnit} {field : SignatureField} {key : ObjectKey}
    (held : (u.completion field).completionObjectKey = some key) : key ∈ inkKeys u.signature u.initials := by
  unfold CompleteUnit.completion at held
  obtain ⟨png,ink,rfl⟩ := Option.map_eq_some_iff.mp held
  unfold inkKeys
  split at ink
  · simp [ink]
  · simp [ink]
  · cases ink

theorem completeAdds {u : CompleteUnit} {key : ObjectKey} (adds : Adds sha256Hex (.complete u) key) :
    key ∈ inkKeys u.signature u.initials := by
  obtain ⟨i,e,e',ok,cases⟩ := addsCases adds
  have ok : u.run i e = .ok e' := ok
  obtain ⟨revisions,artifact,fields⟩ := completeFrame ok
  rw [revisions,artifact] at cases
  rcases cases with ⟨revision,among,new,-⟩ | ⟨artifact,made,new,-⟩ | ⟨field,among,new,held⟩
  · exact absurd among new
  · exact absurd made new
  · obtain ⟨row,old,moved⟩ := forall₂Source fields field among
    by_cases named : row.id ∈ u.selected.map SignatureField.id
    · rw [← show field.id = row.id by rw [moved.kept]] at named
      obtain ⟨selected,-,-,completed⟩ := completedSelection ok field among named
      rw [completed] at held
      exact completionInk held
    · exact absurd (by rw [moved.only named]) (new row old)

/-! The writes in between, and the programs that come to no other. -/

def bare : Write → Bool
  | .createIdempotency _ => true
  | .completeIdempotency _ _ => true
  | .markExpired _ => true
  | .takeLease _ _ _ _ _ => true
  | .finalizationStarted _ _ => true
  | .markFinalizationFailed _ => true
  | .finalizationFailed _ _ _ => true
  | .releaseLease _ => true
  | _ => false

theorem bareAdds {w : Write} {key : ObjectKey} (h : bare w = true) : ¬ Adds sha256Hex w key := by
  refine sameKeys fun i e e' ok => ?_
  cases w with
  | createIdempotency record =>
    obtain ⟨_,_,last⟩ := bindOk.mp ok
    cases last
    exact ⟨rfl,rfl,rfl⟩
  | completeIdempotency recordId response =>
    obtain ⟨_,_,last⟩ := bindOk.mp ok
    cases last
    exact ⟨rfl,rfl,rfl⟩
  | markExpired sessionId =>
    have effect := markExpiredEffect ok
    exact ⟨effect.quiet.revisions,effect.artifact,effect.quiet.fields⟩
  | takeLease input expectedVersion leaseUntil now current =>
    rw [(takeEffect ok).frame]
    exact ⟨rfl,rfl,rfl⟩
  | finalizationStarted input occurredAt =>
    have quiet := appendQuiet ok rfl
    exact ⟨quiet.1.revisions,quiet.2,quiet.1.fields⟩
  | markFinalizationFailed owner =>
    cases ok
    rcases markFinalizationFailedCases owner e with same | ⟨-,changed⟩
    · rw [same]
      exact ⟨rfl,rfl,rfl⟩
    · rw [changed]
      exact ⟨rfl,rfl,rfl⟩
  | finalizationFailed input code occurredAt =>
    have quiet := appendQuiet ok rfl
    exact ⟨quiet.1.revisions,quiet.2,quiet.1.fields⟩
  | releaseLease owner =>
    cases ok
    rcases releaseCases owner e with same | changed
    · rw [same]
      exact ⟨rfl,rfl,rfl⟩
    · rw [changed]
      exact ⟨rfl,rfl,rfl⟩
  | _ => cases h

theorem writesSession (settings : Settings) (input : LoadSignerSessionInput) :
    Program.Writes (fun w => bare w = true) (loadSignerSession settings input) := by
  refine writesThen writesFind (fun found => writesThen writesGet (fun now => ?_))
  refine writesThen writesEnsure (fun _ => writesThen writesEnsure (fun _ => ?_))
  split
  · exact writesThen (writesWhen (writesPerform rfl)) (fun _ => trivial)
  · refine writesThen writesEnsure (fun _ => writesThen writesGet (fun document => ?_))
    refine writesThen writesEnsure (fun _ => writesThen writesFind (fun signer => ?_))
    exact writesThen writesEnsure (fun _ => trivial)

theorem writesIdempotency (settings : Settings) (input : IdempotencyInput) :
    Program.Writes (fun w => bare w = true) (replayOrBeginIdempotency settings input) := by
  refine writesThen writesGet (fun existing => ?_)
  cases existing with
  | some record =>
    refine writesThen writesEnsure (fun _ => ?_)
    cases record.response with
    | some response => trivial
    | none => exact writesThen writesEnsure (fun _ => trivial)
  | none => exact writesThen writesGet (fun id => writesThen (writesPerform rfl) (fun _ => trivial))

theorem writesClaim (input : FlattenInput) (expectedVersion : Nat) (leaseUntil now : Date) :
    Program.Writes (fun w => bare w = true) (claimProcessingLease input expectedVersion leaseUntil now) := by
  refine writesThen writesFind (fun current => writesThen (writesPerform rfl) (fun _ => ?_))
  exact writesThen writesExternal (fun _ => writesGet)

theorem writesFailure (input : FlattenInput) (error : AppError) :
    Program.Writes (fun w => bare w = true) (recordFailure input error) := by
  unfold recordFailure
  split
  · exact writesThen (writesPerform rfl) (fun _ => trivial)
  · refine writesThen (writesPerform rfl) (fun _ => writesThen writesExternal (fun _ => writesThen writesGet (fun _ => ?_)))
    exact writesThen (writesPerform rfl) (fun _ => trivial)

/-! What each part of a writer relies on, and what it can miss. -/

theorem reliesRows {α : Type} {key : ObjectKey} {documentId : Id} {p : UseCase α}
    (h : Program.Writes (fun w => bare w = true) p) :
    ¬ (storedObjects sha256Hex).Relies key (onRows documentId p) := by
  refine reliesWrites (Program.writesPart ?_)
  refine Program.writesMono (fun w idle => ?_) h
  rintro ⟨_,u,same,adds⟩
  cases same
  exact bareAdds idle adds

theorem reliesReads {α : Type} {key : ObjectKey} {documentId : Id} {p : UseCase α}
    (h : Program.Writes (fun _ => False) p) :
    ¬ (storedObjects sha256Hex).Relies key (onRows documentId p) :=
  reliesRows (Program.writesMono (fun _ => False.elim) h)

theorem objectWrite {key : ObjectKey} {w : TenantWrite} (storage : ∀ documentId u, w ≠ .rows documentId u) :
    ¬ (storedObjects sha256Hex).needs w key := by
  rintro ⟨documentId,u,same,-⟩
  exact storage documentId u same

theorem reliesExternal {key : ObjectKey} : ¬ (storedObjects sha256Hex).Relies key external :=
  reliesWrites (fun _ _ => trivial)

theorem reliesPut {key key' : ObjectKey} {storage : ObjectStorage} {digest : Digest} :
    ¬ (storedObjects sha256Hex).Relies key (putObject storage key' digest) := by
  cases storage with
  | memory => exact reliesPerform (objectWrite (fun _ _ => nofun))
  | s3 =>
    refine reliesThen reliesExternal (fun _ _ => reliesThen reliesGet (fun existing _ => ?_))
    refine reliesThen reliesEnsure (fun _ _ => reliesWhen (reliesPerform ?_))
    exact objectWrite (fun _ _ => nofun)

theorem missesPut {key key' : ObjectKey} {storage : ObjectStorage} {digest : Digest}
    (missed : (storedObjects sha256Hex).Misses key (putObject storage key' digest) (.ok ())) : key ≠ key' := by
  rintro rfl
  cases storage with
  | memory => exact missesPerform missed ⟨rfl,digest,.inl rfl⟩
  | s3 =>
    obtain ⟨_,-,missed⟩ := missesThen missed
    obtain ⟨existing,looked,missed⟩ := missesThen missed
    obtain ⟨_,-,missed⟩ := missesThen missed
    obtain ⟨t,i,gone,rfl⟩ := missesGet looked
    have none : findObject key t = none := by simpa [storedObjects] using gone
    rw [none] at missed
    exact missesPerform missed ⟨rfl,digest,.inr rfl⟩

theorem reliesObject {key key' : ObjectKey} {missing : AppError} :
    ¬ (storedObjects sha256Hex).Relies key (getObject key' missing) :=
  reliesThen reliesExternal (fun _ _ => reliesFind)

theorem reliesVerified {key key' : ObjectKey} {storage : ObjectStorage} {digest : Digest} :
    ¬ (storedObjects sha256Hex).Relies key (putVerifiedObject storage key' digest) :=
  reliesThen reliesPut (fun _ _ => reliesThen reliesObject (fun _ _ => reliesEnsure))

theorem missesVerified {key key' : ObjectKey} {storage : ObjectStorage} {digest : Digest}
    (missed : (storedObjects sha256Hex).Misses key (putVerifiedObject storage key' digest) (.ok ())) : key ≠ key' := by
  obtain ⟨_,put,-⟩ := missesThen missed
  exact missesPut put

theorem reliesUpload (settings : TenantSettings) (key : ObjectKey) (documentId : Id) (input : CompleteSourceUploadInput) :
    ¬ (storedObjects settings.sha256Hex).Relies key (completeSourceUpload settings documentId input) := by
  refine reliesThen (reliesReads writesFind) (fun session _ => reliesThen reliesGet (fun now _ => ?_))
  split
  · exact id
  · refine reliesThen reliesEnsure (fun _ _ => reliesThen reliesEnsure (fun _ _ => ?_))
    refine reliesThen reliesLift (fun _ _ => reliesThen (reliesReads writesGet) (fun document _ => ?_))
    refine reliesThen reliesEnsure (fun _ _ => reliesThen reliesEnsure (fun _ _ => ?_))
    refine reliesThen reliesPut (fun _ put => reliesThen reliesObject (fun _ _ => ?_))
    refine reliesThen reliesEnsure (fun _ _ => reliesThen reliesGet (fun _ _ => ?_))
    refine reliesThen reliesGet (fun _ _ => reliesPerform ?_)
    rintro ⟨_,_,same,adds⟩
    cases same
    exact missesPut put (uploadAdds adds)

theorem reliesInk {key : ObjectKey} {storage : ObjectStorage} {ink : Option Ink} :
    ¬ (storedObjects sha256Hex).Relies key (putInk storage ink) := by
  cases ink with
  | none => exact id
  | some png => exact reliesPut

theorem missesInk {key : ObjectKey} {storage : ObjectStorage} {ink : Option Ink}
    (missed : (storedObjects sha256Hex).Misses key (putInk storage ink) (.ok ())) :
    key ∉ ink.toList.map (fun png => signatureImageObjectKey png.digest) := by
  cases ink with
  | none => simp
  | some png => simpa using missesPut missed

theorem reliesCommit {key : ObjectKey} {storage : ObjectStorage} {documentId : Id} {u : Id → Date → CompleteUnit}
    {signature initials : Option Ink} {source : Option Id} {recordId : Id}
    (same : ∀ sourceRevisionId now, (u sourceRevisionId now).signature = signature ∧ (u sourceRevisionId now).initials = initials) :
    ¬ (storedObjects sha256Hex).Relies key (commitSigning storage documentId u signature initials source recordId) := by
  refine reliesThen reliesGet (fun now _ => reliesThen reliesInk (fun _ first => ?_))
  refine reliesThen reliesInk (fun _ second => reliesThen reliesLift (fun sourceRevisionId _ => ?_))
  refine reliesThen (reliesPerform ?_) (fun _ _ => reliesThen (reliesPerform ?_) (fun _ _ => id))
  · rintro ⟨_,_,unit,adds⟩
    cases unit
    have held := completeAdds adds
    rw [(same sourceRevisionId now).1,(same sourceRevisionId now).2,inkKeys,List.map_append,List.mem_append] at held
    exact held.elim (missesInk first) (missesInk second)
  · rintro ⟨_,_,unit,adds⟩
    cases unit
    exact bareAdds rfl adds

theorem reliesSigning (settings : TenantSettings) (key : ObjectKey) (documentId : Id) (input : CompleteSigningInput) :
    ¬ (storedObjects settings.sha256Hex).Relies key (completeSigning settings documentId input) := by
  refine reliesThen reliesEnsure (fun _ _ => ?_)
  refine reliesThen (reliesRows (writesSession _ _)) (fun loaded _ => ?_)
  refine reliesThen (reliesReads writesGet) (fun roster _ => reliesThen (reliesReads writesGet) (fun fields _ => ?_))
  split
  · exact id
  · refine reliesThen reliesEnsure (fun _ _ => reliesThen (reliesReads writesGet) (fun consent _ => ?_))
    refine reliesThen reliesEnsure (fun _ _ => reliesThen reliesLift (fun selected _ => ?_))
    refine reliesThen reliesLift (fun signature _ => reliesThen reliesLift (fun initials _ => ?_))
    refine reliesThen reliesLift (fun _ _ => reliesThen reliesLift (fun idempotencyKey _ => ?_))
    refine reliesThen reliesGet (fun now _ => ?_)
    refine reliesThen (reliesRows (writesIdempotency _ _)) (fun begun _ => ?_)
    cases begun with
    | replay response => exact reliesLift
    | record recordId => exact reliesCommit (fun _ _ => ⟨rfl,rfl⟩)

theorem reliesDownload {settings : TenantSettings} {key : ObjectKey} {revision : DocumentRevision} :
    ¬ (storedObjects sha256Hex).Relies key (downloadAndVerifySource settings revision) := by
  refine reliesThen reliesObject (fun _ _ => reliesThen reliesEnsure (fun _ _ => ?_))
  exact reliesThen reliesExternal (fun _ _ => id)

theorem reliesAppearances {key : ObjectKey} {input : FlattenInput} {pageCount : Nat} {list : List SignatureField} :
    ¬ (storedObjects sha256Hex).Relies key (readAppearances input pageCount list) := by
  induction list with
  | nil => exact id
  | cons field rest ih =>
    refine reliesThen reliesLift (fun _ _ => reliesThen ?_ (fun _ _ => ih))
    unfold readInk
    split
    · exact id
    · refine reliesThen reliesObject (fun _ _ => reliesThen reliesEnsure (fun _ _ => ?_))
      exact reliesExternal

theorem reliesOutput {settings : TenantSettings} {key : ObjectKey} {input : FlattenInput} {loaded : LoadedWork}
    {revision : DocumentRevision} : ¬ (storedObjects sha256Hex).Relies key (outputOf settings input loaded revision) := by
  unfold outputOf
  split
  · refine reliesThen reliesDownload (fun _ _ => reliesThen reliesAppearances (fun _ _ => ?_))
    refine reliesThen reliesExternal (fun _ _ => reliesThen reliesGet (fun _ _ => ?_))
    exact reliesThen reliesVerified (fun _ _ => id)
  · exact reliesDownload

theorem missesOutput {settings : TenantSettings} {key : ObjectKey} {input : FlattenInput} {loaded : LoadedWork}
    {revision : DocumentRevision} {output : Pdf × Nat} (drawn : 0 < loaded.pendingFields.length)
    (missed : (storedObjects settings.sha256Hex).Misses key (outputOf settings input loaded revision) (.ok output)) :
    key ≠ sourceRevisionObjectKey (settings.sha256Hex output.1) := by
  rw [outputOf,if_pos drawn] at missed
  obtain ⟨source,-,missed⟩ := missesThen missed
  obtain ⟨_,-,missed⟩ := missesThen missed
  obtain ⟨_,-,missed⟩ := missesThen missed
  obtain ⟨pageCount,-,missed⟩ := missesThen missed
  obtain ⟨_,stored,missed⟩ := missesThen missed
  cases missed
  exact missesVerified stored

/- The key of an artifact is never that of a revision, so the artifact is stored before it is committed. -/
theorem missesArtifact {key : ObjectKey} {storage : ObjectStorage} {digest : Digest} {last : Bool}
    (missed : (storedObjects sha256Hex).Misses key (Fallible.when
      (last ∧ sourceRevisionObjectKey digest ≠ artifactObjectKey digest)
      (putVerifiedObject storage (artifactObjectKey digest) digest)) (.ok ())) (finalize : last = true) :
    key ≠ artifactObjectKey digest := by
  rw [decide_eq_true (show last = true ∧ sourceRevisionObjectKey digest ≠ artifactObjectKey digest from ⟨finalize,nofun⟩)] at missed
  exact missesVerified missed

theorem reliesDraw {settings : TenantSettings} {key : ObjectKey} {documentId : Id} {input : FlattenInput}
    {loaded : LoadedWork} {leased : Document} : ¬ (storedObjects settings.sha256Hex).Relies key (drawAndCommit settings documentId input loaded leased) := by
  refine reliesThen (reliesReads writesFind) (fun revision _ => reliesThen reliesOutput (fun output drawn => ?_))
  refine reliesThen reliesGet (fun ids _ => reliesThen reliesGet (fun occurredAt _ => ?_))
  refine reliesThen (reliesWhen reliesVerified) (fun _ stored => ?_)
  refine reliesAttempt (reliesPerform ?_) (fun _ => id)
  rintro ⟨_,_,same,adds⟩
  cases same
  rcases flattenAdds adds with ⟨named,pending⟩ | ⟨named,finalize⟩
  · exact missesOutput pending drawn named
  · exact missesArtifact stored finalize named

theorem reliesPersist {settings : TenantSettings} {key : ObjectKey} {documentId : Id} {input : FlattenInput}
    {loaded : LoadedWork} :
    ¬ (storedObjects settings.sha256Hex).Relies key (persistMissingFinalArtifact settings documentId input loaded) := by
  refine reliesThen reliesDownload (fun source read => reliesThen (reliesWhen reliesVerified) (fun _ stored => ?_))
  refine reliesThen reliesGet (fun artifactId _ => reliesThen reliesGet (fun occurredAt _ => ?_))
  refine reliesAttempt (reliesPerform ?_) (fun _ => id)
  rintro ⟨_,_,same,adds⟩
  cases same
  have body : source.1 = loaded.revision.body := by
    obtain ⟨_,-,read⟩ := missesThen read
    obtain ⟨_,-,read⟩ := missesThen read
    obtain ⟨_,-,read⟩ := missesThen read
    cases read
    rfl
  rw [body] at stored
  exact missesVerified stored (persistAdds adds)

theorem reliesFlatten (settings : TenantSettings) (key : ObjectKey) (documentId : Id) (input : FlattenInput) :
    ¬ (storedObjects settings.sha256Hex).Relies key (flattenSignature settings documentId input) := by
  refine reliesThen (reliesReads (writesWork input)) (fun work _ => ?_)
  cases work with
  | none => exact id
  | some loaded =>
    dsimp only
    split
    · exact reliesPersist
    · refine reliesThen reliesGet (fun now _ => ?_)
      refine reliesThen (reliesAttempt (reliesRows (writesClaim _ _ _ _)) (fun _ => id)) (fun leased _ => ?_)
      refine reliesThen (reliesWhen (reliesPerform ?_)) (fun _ _ => ?_)
      · rintro ⟨_,_,same,adds⟩
        cases same
        exact bareAdds rfl adds
      · exact reliesAttempt reliesDraw (fun error => reliesRows (writesFailure input error))

theorem reliesKeys {settings : TenantSettings} {key : ObjectKey} {keys : List ObjectKey} {deleted : Nat} :
    ¬ (storedObjects sha256Hex).Relies key (cleanupKeys settings keys deleted) := by
  induction keys generalizing deleted with
  | nil => exact id
  | cons key' rest ih =>
    refine reliesThen reliesGet (fun referenced _ => ?_)
    cases referenced with
    | true => exact ih
    | false => exact reliesThen (reliesPerform (objectWrite (fun _ _ => nofun))) (fun _ _ => ih)

theorem reliesPrefixes {settings : TenantSettings} {key : ObjectKey} {olderThan : Date} {prefixes : List ObjectPrefix} {deleted : Nat} :
    ¬ (storedObjects sha256Hex).Relies key (cleanupPrefixes settings olderThan prefixes deleted) := by
  induction prefixes generalizing deleted with
  | nil => exact id
  | cons keyPrefix rest ih =>
    exact reliesThen reliesGet (fun keys _ => reliesThen reliesKeys (fun _ _ => ih))

theorem reliesStart (settings : TenantSettings) (request : TenantRequest) (key : ObjectKey) :
    ¬ (storedObjects settings.sha256Hex).Relies key (startTenantRequest settings request) := by
  cases request with
  | completeSourceUpload documentId input => exact reliesUpload settings key documentId input
  | completeSigning documentId input => exact reliesThen (reliesSigning settings key documentId input) (fun _ _ => id)
  | flattenSignature documentId input => exact reliesFlatten settings key documentId input
  | cleanupOrphanedObjects =>
    refine reliesThen ?_ (fun _ _ => id)
    exact reliesThen reliesGet (fun _ _ => reliesPrefixes)

/-! What a write does to the objects, and to the keys that are held. -/

theorem findAppended {key : ObjectKey} {objects : List StoredObject} {object : StoredObject}
    (there : (objects.find? (fun row => row.key = key)).isSome = true ∨ object.key = key) :
    ((objects ++ [object]).find? (fun row => row.key = key)).isSome = true := by
  rw [List.find?_isSome] at there ⊢
  rcases there with ⟨row,among,same⟩ | same
  · exact ⟨row,List.mem_append_left _ among,same⟩
  · exact ⟨object,by simp,by simpa using same⟩

theorem findFiltered {key key' : ObjectKey} {objects : List StoredObject} (other : key ≠ key')
    (there : (objects.find? (fun row => row.key = key)).isSome = true) :
    ((objects.filter (fun row => row.key ≠ key')).find? (fun row => row.key = key)).isSome = true := by
  rw [List.find?_isSome] at there ⊢
  obtain ⟨row,among,same⟩ := there
  refine ⟨row,List.mem_filter.mpr ⟨among,?_⟩,same⟩
  rw [of_decide_eq_true same]
  exact decide_eq_true other

theorem writeMade {w : TenantWrite} {t : Tenancy} {i : Input} {key : ObjectKey}
    (makes : (storedObjects sha256Hex).makes w (w.exec t i).2 key) : (findObject key (w.exec t i).1).isSome = true := by
  obtain ⟨ok,digest,rfl | rfl⟩ := makes
  · unfold TenantWrite.exec putObjectAt at ok ⊢
    cases failed : i.failure with
    | some error =>
      rw [failed] at ok
      cases ok
    | none =>
      dsimp only
      cases found : findObject key t with
      | some existing =>
        dsimp only
        split <;> simp [found]
      | none => exact findAppended (.inr rfl)
  · unfold TenantWrite.exec at ok ⊢
    cases failed : i.failure with
    | some error =>
      rw [failed] at ok
      cases ok
    | none => exact findAppended (.inr rfl)

theorem writeKept {w : TenantWrite} {t : Tenancy} {i : Input} {key : ObjectKey} (other : w ≠ .deleteObject key)
    (there : (findObject key t).isSome = true) : (findObject key (w.exec t i).1).isSome = true := by
  unfold TenantWrite.exec
  cases w with
  | rows documentId w =>
    dsimp only
    split <;> exact there
  | putObject key' digest =>
    dsimp only
    split
    · exact there
    · unfold putObjectAt
      split
      · split <;> exact there
      · exact findAppended (.inl there)
  | putCommand key' digest =>
    dsimp only
    split
    · exact there
    · by_cases same : key = key'
      · exact findAppended (.inr same.symm)
      · exact findAppended (.inl (findFiltered same there))
  | deleteObject key' =>
    dsimp only
    split
    · exact there
    · exact findFiltered (fun same => other (by rw [same])) there

theorem referencedWritten {w : TenantWrite} {t : Tenancy} {i : Input} {key : ObjectKey}
    (held : Referenced sha256Hex key (w.exec t i).1) : Referenced sha256Hex key t ∨ (storedObjects sha256Hex).needs w key := by
  unfold TenantWrite.exec at held
  cases w with
  | rows documentId w =>
    dsimp only at held
    split at held
    · exact .inl held
    · rename_i e found
      obtain ⟨row,among,held⟩ := held
      obtain ⟨old,oldAmong,rfl⟩ := List.mem_map.mp among
      split at held
      · obtain ⟨stored,same,rfl⟩ := Option.map_eq_some_iff.mp found
        rcases w.execCases stored.2 i with kept | ok
        · rw [kept] at held
          exact .inl ⟨stored,List.mem_of_find?_eq_some same,held⟩
        · by_cases before : key ∈ referencedKeys sha256Hex stored.2
          · exact .inl ⟨stored,List.mem_of_find?_eq_some same,before⟩
          · exact .inr ⟨documentId,w,rfl,i,stored.2,_,ok,held,before⟩
      · exact .inl ⟨old,oldAmong,held⟩
  | putObject key' digest =>
    dsimp only at held
    split at held
    · exact .inl held
    · unfold putObjectAt at held
      split at held
      · split at held <;> exact .inl held
      · exact .inl held
  | putCommand key' digest =>
    dsimp only at held
    split at held <;> exact .inl held
  | deleteObject key' =>
    dsimp only at held
    split at held <;> exact .inl held

end

/-- Every key that a committed revision, artifact or completed field holds is there. -/
def Present (settings : TenantSettings) (t : Tenancy) : Prop :=
  ∀ key, Referenced settings.sha256Hex key t → (findObject key t).isSome = true

/-- What an action takes away no row refers to, and no use case under way relies on. -/
def Sparing (settings : TenantSettings) (c : TenantRunning) (a : Action Input TenantRequest) : Prop :=
  ∀ index i key next, a = .step index i → c.tasks[index]? = some (.write (.deleteObject key) next) →
    ¬ Referenced settings.sha256Hex key c.store ∧ ∀ t ∈ c.tasks, ¬ (storedObjects settings.sha256Hex).Relies key t

def SparingStep (settings : TenantSettings) (c c' : TenantRunning) : Prop :=
  ∃ a, Sparing settings c a ∧ (tenant settings).apply c a = some c'

/-- In all runs whose steps are of one kind, what a row refers to is there. -/
def ReferencedPresent (settings : TenantSettings) (step : TenantRunning → TenantRunning → Prop) : Prop :=
  ∀ t, Present settings t → ∀ c, Relation.ReflTransGen step (initial t) c → Present settings c.store

theorem sparingBacked {settings : TenantSettings} {c c' : TenantRunning} {a : Action Input TenantRequest}
    (sparing : Sparing settings c a) (backed : (storedObjects settings.sha256Hex).Backed c)
    (applied : (tenant settings).apply c a = some c') : (storedObjects settings.sha256Hex).Backed c' := by
  refine backedStep (fun w s i key => writeMade) (fun request key => reliesStart settings request key) ?_ backed applied
  intro index i w next same found t among key relies there
  refine writeKept ?_ there
  rintro rfl
  exact (sparing index i key next same found).2 t among relies

theorem sparingPresent {settings : TenantSettings} {c c' : TenantRunning} {a : Action Input TenantRequest}
    (sparing : Sparing settings c a) (backed : (storedObjects settings.sha256Hex).Backed c) (present : Present settings c.store)
    (applied : (tenant settings).apply c a = some c') : Present settings c'.store := by
  cases a with
  | spawn request =>
    cases Option.some.inj applied
    exact present
  | step index i =>
    rcases stepTaken applied with ⟨next,found,rfl⟩ | ⟨w,next,found,rfl⟩
    · exact present
    · intro key held
      have there : (findObject key c.store).isSome = true := by
        rcases referencedWritten held with before | needs
        · exact present key before
        · exact backed _ (List.mem_of_getElem? found) key (.inl needs)
      refine writeKept ?_ there
      rintro rfl
      obtain ⟨unheld,unneeded⟩ := sparing index i key next rfl found
      rcases referencedWritten held with before | needs
      · exact unheld before
      · exact unneeded _ (List.mem_of_getElem? found) (.inl needs)
  | crash index =>
    cases Option.some.inj applied
    exact present

theorem referencedPresent (settings : TenantSettings) : ReferencedPresent settings (SparingStep settings) := by
  intro t present c run
  have kept : (storedObjects settings.sha256Hex).Backed c ∧ Present settings c.store := by
    induction run with
    | refl => exact ⟨by simp [Resources.Backed,initial],present⟩
    | tail _ step ih =>
      obtain ⟨a,sparing,applied⟩ := step
      exact ⟨sparingBacked sparing ih.1 applied,sparingPresent sparing ih.1 ih.2 applied⟩
  exact kept.2

/-! One organization, two drafts, and the same file uploaded to both, a day apart. -/

namespace SameFile

def settings (storage : ObjectStorage) : TenantSettings where
  rows :=
    { sessionTtlMs := 1000
      idempotencyTtlMs := 1000
      leaseMs := 1000
      requiresAccountAuth := false
      disclosures := []
      currentDisclosure := 0
      toLowerCase := id }
  storage := storage
  sha256Hex := Pdf.uploaded
  olderThanMs := 86400000
  prefixes := [.revisions,.artifacts,.signatures]

def drafts : Tenancy where
  objects := []
  documents := [(1,createDraftDocument ⟨3,11,172800000,5,0⟩),(2,createDraftDocument ⟨4,12,172800000,5,0⟩)]

def input (now : Date) : Input where
  now := now
  ids := fun n => 20 + n
  tokens := fun n => 30 + n
  failure := none
  stored := ⟨7,[]⟩
  inspection := fun _ => (true,none)
  pageCount := 1

def upload (documentId tokenHash : Id) : TenantRequest := .completeSourceUpload documentId ⟨tokenHash,7,.ok ()⟩

def steps (index count : Nat) (now : Date) : List (Action Input TenantRequest) :=
  List.replicate count (.step index (input now))

/-- The upload to the first draft ends with the process, after `count` steps. -/
def abandoned (count : Nat) : List (Action Input TenantRequest) :=
  .spawn (upload 1 11) :: steps 0 count 0 ++ [.crash 0]

/-- The cleanup lists the object; the file is uploaded to the second draft and read back; the
cleanup finds no row; the row is committed; the cleanup removes the object. -/
def overtaken (count : Nat) : List (Action Input TenantRequest) :=
  .spawn (upload 2 12) :: .spawn .cleanupOrphanedObjects :: steps 1 2 86400001 ++ steps 0 count 86400001 ++
    steps 1 1 86400001 ++ steps 0 1 86400001 ++ steps 1 1 86400001

/-- The row is committed before the cleanup looks for it. -/
def spared (count : Nat) : List (Action Input TenantRequest) :=
  .spawn (upload 2 12) :: .spawn .cleanupOrphanedObjects :: steps 1 2 86400001 ++ steps 0 (count+1) 86400001 ++
    steps 1 3 86400001

theorem draftsPresent (storage : ObjectStorage) : Present (settings storage) drafts := by
  rintro key ⟨row,among,held⟩
  simp only [drafts,List.mem_cons,List.not_mem_nil,or_false] at among
  rcases among with rfl | rfl <;> cases held

theorem referencedOf {key : ObjectKey} {t : Tenancy} (found : isReferenced Pdf.uploaded key t = true) :
    Referenced Pdf.uploaded key t := by
  obtain ⟨row,among,held⟩ := List.any_eq_true.mp found
  exact ⟨row,among,of_decide_eq_true held⟩

theorem taken {storage : ObjectStorage} (actions : List (Action Input TenantRequest))
    (evaluated : ((tenant (settings storage)).applyAll (fun _ _ => true) (initial drafts) actions).map (fun c =>
      (isReferenced Pdf.uploaded (.revisions 7) c.store,(findObject (.revisions 7) c.store).isSome)) = some (true,false)) :
    ¬ ReferencedPresent (settings storage) (Step (tenant (settings storage)) (Scope.of fun _ => True)) := by
  intro always
  obtain ⟨c,reached,states⟩ := Option.map_eq_some_iff.mp evaluated
  rw [Prod.mk.injEq] at states
  have run : Run (tenant (settings storage)) (Scope.of fun _ => True) (initial drafts) c :=
    runOfActions (fun _ _ => trivial) (fun _ _ _ => trivial) reached
  have there := always drafts (draftsPresent storage) c run (.revisions 7) (referencedOf states.1)
  rw [states.2] at there
  cases there

def removesNothing (w : TenantWrite) (_ : Tenancy) : Bool :=
  match w with
  | .deleteObject _ => false
  | _ => true

theorem sparingActions {settings : TenantSettings} {actions : List (Action Input TenantRequest)} {c c' : TenantRunning}
    (ok : (tenant settings).applyAll removesNothing c actions = some c') :
    Relation.ReflTransGen (SparingStep settings) c c' := by
  induction actions generalizing c with
  | nil =>
    cases Option.some.inj ok
    exact .refl
  | cons a rest ih =>
    simp only [System.applyAll] at ok
    split at ok <;> try contradiction
    rename_i guarded
    obtain ⟨mid,first,ok⟩ := Option.bind_eq_some_iff.mp ok
    refine .head ⟨a,?_,first⟩ (ih ok)
    rintro index i key next rfl found
    simp only [Config.guards,found] at guarded
    cases guarded

end SameFile

set_option maxRecDepth 100000 in
/-- An old object that no row refers to is listed; the same file is stored again, which leaves its
age alone; its row is committed after the check and before the removal. In both storages. -/
theorem orphanTaken :
    ¬ ReferencedPresent (SameFile.settings .memory) (Step (tenant (SameFile.settings .memory)) (Scope.of fun _ => True)) ∧
    ¬ ReferencedPresent (SameFile.settings .s3) (Step (tenant (SameFile.settings .s3)) (Scope.of fun _ => True)) :=
  ⟨SameFile.taken (SameFile.abandoned 4 ++ SameFile.overtaken 8) (by decide +kernel),
    SameFile.taken (SameFile.abandoned 6 ++ SameFile.overtaken 9) (by decide +kernel)⟩

set_option maxRecDepth 100000 in
/-- A cleanup that has listed the object finds the row that was committed in the meantime. -/
theorem orphanSpared : ∃ c, Relation.ReflTransGen (SparingStep (SameFile.settings .s3)) (initial SameFile.drafts) c ∧
    Referenced Pdf.uploaded (.revisions 7) c.store ∧ (findObject (.revisions 7) c.store).isSome = true := by
  have evaluated : ((tenant (SameFile.settings .s3)).applyAll SameFile.removesNothing (initial SameFile.drafts)
      (SameFile.abandoned 6 ++ SameFile.spared 9)).map (fun c => isReferenced Pdf.uploaded (.revisions 7) c.store) =
      some true := by decide +kernel
  obtain ⟨c,reached,found⟩ := Option.map_eq_some_iff.mp evaluated
  have run := SameFile.sparingActions reached
  have held := SameFile.referencedOf found
  exact ⟨c,run,held,
    referencedPresent (SameFile.settings .s3) SameFile.drafts (SameFile.draftsPresent .s3) c run (.revisions 7) held⟩

end ESign.Tenant
