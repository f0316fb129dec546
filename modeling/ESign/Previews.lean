import ESign.Downloads

/-! Previews. A grant opens one revision until its time is past, whatever becomes of the
document; it is made for members of the organization, of the revision that is current then,
and for signers, of the revision that was sent. All signers are shown the bytes that were
uploaded and inspected, and these are the bytes the artifact is drawn on. -/
namespace ESign.Desk
open StoreProgram StoreProgram.Fallible StoreProgram.Outline Accounts

def previewExpired : AppError := .authentication [("reason","preview_expired")]

/-- How a stream of the preview of one grant, which is of one revision, may end. -/
inductive Streamed (settings : RouteSettings) (inputs : Input → Prop) (g : PreviewGrant) (r : DocumentRevision) :
    Except AppError ShownPreview → Prop where
  | expired (i : Input) (given : inputs i) (late : g.expiresAt ≤ i.rows.now) :
      Streamed settings inputs g r (.error previewExpired)
  | shown (i j : Input) (given : inputs i ∧ inputs j) (inTime : i.rows.now < g.expiresAt) (stored : StoredBytes)
      (found : j.object (Tenant.sourceRevisionObjectKey (settings.desk.sha256Hex r.body)) = some stored) :
      Streamed settings inputs g r (.ok ⟨stored.body,stored.contentType⟩)
  | unavailable (i j : Input) (given : inputs i ∧ inputs j) (inTime : i.rows.now < g.expiresAt) (error : AppError)
      (refused : j.rows.failure = some error ∨
        (j.object (Tenant.sourceRevisionObjectKey (settings.desk.sha256Hex r.body)) = none ∧ error = missingObject)) :
      Streamed settings inputs g r (.error error)

section

variable {settings : RouteSettings} {inputs : Input → Prop} {c c' : Running} {own : List (Performed Write Store Input)}

/- The end of every stream: the revision is there, and object storage is asked for its key. -/
theorem streamAmid (sound : (deskOutline settings).Sound c) {g : PreviewGrant} {r : DocumentRevision}
    (mem : g ∈ c.store.grants)
    (listed : r ∈ c.store.rows.revisions) (named : g.revisionId = r.id) {value : Except AppError ShownPreview}
    (run : Amid (desk settings) anyScope inputs c (streamDocumentPreview settings.desk g.id g.tokenHash) own value c') :
    own = [] ∧ Streamed settings inputs g r value := by
  obtain ⟨c₁,_,-,first,run⟩ := amidThenGet run
  obtain ⟨sound₁,rel₁⟩ := deskLater sound first
  have found : PreviewGrants.findByTokenHash g.tokenHash c₁.store = some g :=
    findsKeyed PreviewGrant.tokenHash sound₁.inv.2.tokens (rel₁.2 g mem)
  rw [found] at run
  have run := amidPassedOn (if_pos rfl) run
  obtain ⟨c₂,i,given,second,run⟩ := amidThenGet run
  by_cases inTime : i.rows.now < g.expiresAt
  · have run := amidPassed (decide_eq_true inTime) run
    have all : ∀ {c₃}, Run (desk settings) anyScope c₂ c₃ → Revisions.findById g.revisionId c₃.store.rows = some r := by
      intro c₃ third
      obtain ⟨sound₃,past⟩ := soundRun sound (first.trans (second.trans third))
      rw [named]
      exact findsKeyed DocumentRevision.id sound₃.inv.1.2.shown.inspected.ids (past.2.2.final.revisions r listed)
    obtain ⟨c₃,-,run⟩ := amidMet all run
    rcases amidThen run with ⟨error,rfl,failed⟩ | ⟨stored,c₄,own₁,own₂,rfl,fetch,rest⟩
    · obtain ⟨none,-,j,given',refused⟩ := amidObject failed
      exact ⟨none,.unavailable i j ⟨given,given'⟩ inTime error refused⟩
    · obtain ⟨rfl,-,j,given',found⟩ := amidObject fetch
      obtain ⟨rfl,-,rfl⟩ := amidLift rest
      exact ⟨rfl,.shown i j ⟨given,given'⟩ inTime stored found⟩
  · obtain ⟨none,-,rfl⟩ := amidStopped (decide_eq_false inTime) run
    exact ⟨none,.expired i given (Int.not_lt.mp inTime)⟩

theorem streamedBy (sound : (deskOutline settings).Sound c) {grantId tokenHash : Id} {shown : ShownPreview}
    (run : Amid (desk settings) anyScope inputs c (streamDocumentPreview settings.desk grantId tokenHash) own
    (.ok shown) c') :
    own = [] ∧ ∃ g ∈ c'.store.grants, ∃ r ∈ c'.store.rows.revisions, g.id = grantId ∧ g.tokenHash = tokenHash ∧
      g.revisionId = r.id ∧ Streamed settings inputs g r (.ok shown) := by
  obtain ⟨c₁,_,-,first,run⟩ := amidThenGet run
  obtain ⟨g,checked,run⟩ := amidThenLift run
  have mem : g ∈ c₁.store.grants ∧ g.tokenHash = tokenHash ∧ g.id = grantId := by
    split at checked
    · rename_i row found
      split at checked <;> try contradiction
      rename_i same
      cases checked
      exact ⟨List.mem_of_find?_eq_some found,by simpa using List.find?_some found,same⟩
    · cases checked
  obtain ⟨c₂,i,given,second,run⟩ := amidThenGet run
  obtain ⟨inTime,run⟩ := amidThenEnsure run
  rcases amidThenFind run with ⟨-,_,same⟩ | ⟨r,c₃,third,row,run⟩
  · cases same
  rcases amidThen run with ⟨_,same,-⟩ | ⟨stored,c₄,own₁,own₂,rfl,fetch,rest⟩
  · cases same
  obtain ⟨rfl,fourth,j,given',found⟩ := amidObject fetch
  obtain ⟨rfl,rfl,same⟩ := amidLift rest
  cases same
  obtain ⟨sound₁,-⟩ := deskLater sound first
  obtain ⟨sound₃,rel₃⟩ := deskLater sound₁ (second.trans third)
  obtain ⟨-,rel₄⟩ := deskLater sound₃ fourth
  have id : r.id = g.revisionId := by simpa using List.find?_some row
  exact ⟨rfl,g,rel₄.2 g (rel₃.2 g mem.1),r,rel₄.1.2.final.revisions r
    (List.mem_of_find?_eq_some row),mem.2.2,mem.2.1,id.symm,
    .shown i j ⟨given,given'⟩ (of_decide_eq_true inTime) stored found⟩

structure Issued (settings : RouteSettings) (inputs : Input → Prop) (view : PreviewView) (g : PreviewGrant)
    (r : DocumentRevision) (own : List (Performed Write Store Input)) (d : Store) : Prop where
  grant : g ∈ d.grants
  listed : r ∈ d.rows.revisions
  made : GrantOf view r.id g
  lifetime : g.expiresAt = g.createdAt + settings.desk.previewTtlMs
  created : ∃ i, inputs i ∧ g.createdAt = i.rows.now
  own : ∃ before i, own = [⟨.createGrant g,before,i⟩] ∧ d.grants = before.grants ++ [g]

theorem issueAmid (sound : (deskOutline settings).Sound c) {r : DocumentRevision} (listed : r ∈ c.store.rows.revisions)
    {view : PreviewView}
    (run : Amid (desk settings) anyScope inputs c (issueGrant settings.desk r) own (.ok view) c') :
    ∃ g, Issued settings inputs view g r own c'.store := by
  obtain ⟨c₁,i,given,first,run⟩ := amidThenGet run
  obtain ⟨c₂,_,-,second,run⟩ := amidThenGet run
  obtain ⟨c₃,_,-,third,run⟩ := amidThenGet run
  rcases amidThen run with ⟨_,same,-⟩ | ⟨_,c₄,own₁,own₂,rfl,insert,rest⟩
  · cases same
  obtain ⟨c₅,j,fourth,rfl,answered,rfl⟩ := amidPerform insert
  obtain ⟨rfl,rfl,same⟩ := amidLift rest
  cases same
  obtain ⟨-,past⟩ := soundRun sound (first.trans (second.trans (third.trans fourth)))
  obtain ⟨-,grown⟩ := inserted (attemptedOk answered.symm)
  have grown : ((desk settings).exec (.createGrant _) c₅.store j).1 = _ := grown
  refine ⟨_,?_,?_,⟨rfl,rfl,rfl,rfl⟩,rfl,⟨i,given,rfl⟩,c₅.store,j,rfl,?_⟩
  · rw [grown]
    exact List.mem_append_right _ List.mem_cons_self
  · rw [grown]
    exact past.2.2.final.revisions r listed
  · rw [grown]

theorem issuedStreams {view : PreviewView} {g : PreviewGrant} {r : DocumentRevision}
    (sound : (deskOutline settings).Sound c)
    (mem : g ∈ c.store.grants) (listed : r ∈ c.store.rows.revisions) (made : GrantOf view r.id g) {c₁ : Running}
    (later : Run (desk settings) anyScope c c₁) {value : Except AppError Answer}
    (run : Amid (desk settings) anyScope inputs c₁ ((desk settings).start (.streamPreview view.grantId view.tokenHash))
    own
      value c') : own = [] ∧ ∃ result, value = result.map Answer.shown ∧ Streamed settings inputs g r result := by
  obtain ⟨sound₁,rel⟩ := deskLater sound later
  obtain ⟨result,streamed,same⟩ := amidAnswer run
  rw [← made.id,← made.tokenHash] at streamed
  obtain ⟨none,ends⟩ := streamAmid sound₁ (rel.2 g mem) (rel.1.2.final.revisions r listed) made.revisionId streamed
  exact ⟨none,result,same,ends⟩

end

/-! The receipts: the grant of a preview is written before the view is returned. -/

def previewed : Except AppError Answer → Bool
  | .ok (.preview _) => true
  | .ok (.signing (.preview _)) => true
  | _ => false

def createsGrant (w : Write) (answer : Except AppError Unit) : Prop := (∃ grant, w = .createGrant grant) ∧ answer = .ok ()

section

variable {settings : RouteSettings}

theorem issueOwed (r : DocumentRevision) :
    Program.Paid (fun result : Except AppError PreviewView => result.isOk = true) createsGrant
    (issueGrant settings.desk r) := by
  refine paidThen errorUnpaid _ fun now => paidThen errorUnpaid _ fun tokenHash => paidThen errorUnpaid _ fun id => ?_
  exact paidPerform errorUnpaid ⟨⟨_,rfl⟩,rfl⟩

theorem documentPreviewOwed (actor : AccountUserActor Id) (documentId : Id) :
    Program.Paid (fun result : Except AppError PreviewView => result.isOk = true) createsGrant
      (issueDocumentPreview settings.desk actor documentId) := by
  refine paidThen errorUnpaid _ fun _ => paidThen errorUnpaid _ fun document => paidThen errorUnpaid _ fun revisionId =>
    ?_
  exact paidThen errorUnpaid _ fun revision => issueOwed revision

theorem signerPreviewOwed (tokenHash : Id) (accountUserId : Option Id) :
    Program.Paid (fun result : Except AppError PreviewView => result.isOk = true) createsGrant
      (issueSignerPreview settings.desk tokenHash accountUserId) := by
  refine paidThen errorUnpaid _ fun loaded => paidThen errorUnpaid _ fun revisionId => paidThen errorUnpaid _
    fun revision => ?_
  exact issueOwed revision

theorem signingOwed (head : SignerHead) (route : SigningRoute) :
    Program.Paid (fun answer : Except AppError SignerAnswer => previewed (answer.map Answer.signing) = true) createsGrant
      (signingRoute settings head route) := by
  have failed : ∀ error : AppError, ¬ previewed ((Except.error error : Except AppError SignerAnswer).map Answer.signing) =
    true :=
    fun _ => Bool.false_ne_true
  refine paidThen failed _ fun _ => ?_
  cases route with
  | previews =>
    refine paidThen failed _ fun token => paidThen failed _ fun _ => ?_
    exact paidMap failed (fun _ _ => rfl) (signerPreviewOwed _ _)
  | exchange body =>
    refine paidThen failed _ fun _ => paidThen failed _ fun _ => paidThen failed _ fun token => ?_
    exact paidThen failed _ fun _ => Bool.false_ne_true
  | session => exact paidThen failed _ fun _ => paidThen failed _ fun _ => Bool.false_ne_true
  | document => exact paidThen failed _ fun _ => paidThen failed _ fun _ => Bool.false_ne_true
  | fields => exact paidThen failed _ fun _ => paidThen failed _ fun _ => Bool.false_ne_true
  | consent => exact paidThen failed _ fun _ => paidThen failed _ fun _ => Bool.false_ne_true
  | viewed => exact paidThen failed _ fun _ => paidThen failed _ fun _ => paidThen failed _ fun _ => Bool.false_ne_true
  | recordConsent body =>
    exact paidThen failed _ fun _ => paidThen failed _ fun _ => paidThen failed _ fun _ => Bool.false_ne_true
  | decline body =>
    exact paidThen failed _ fun _ => paidThen failed _ fun _ => paidThen failed _ fun _ => Bool.false_ne_true
  | complete body =>
    exact paidThen failed _ fun _ => paidThen failed _ fun _ => paidThen failed _ fun _ => Bool.false_ne_true

theorem previewOwed (request : Request) :
    ((desk settings).start request).Paid (fun answer => previewed answer = true) createsGrant := by
  have failed : ∀ error, ¬ previewed (.error error) = true := fun _ => Bool.false_ne_true
  cases request with
  | issuePreview actor documentId => exact paidMap failed (fun _ _ => rfl) (documentPreviewOwed actor documentId)
  | signing head route => exact paidMap failed (fun _ held => held) (signingOwed head route)
  | rows request => exact paidThen failed _ fun _ => Bool.false_ne_true
  | streamPreview grantId tokenHash => exact paidThen failed _ fun _ => Bool.false_ne_true
  | downloadArtifact actor documentId => exact paidThen failed _ fun _ => Bool.false_ne_true

def grantCount (d : Store) : Nat := d.grants.length

theorem grantsGrow {a b : Store} (past : (deskOutline settings).Past a b) : grantCount a ≤ grantCount b :=
  (List.Nodup.of_map _ past.1.2.ids).length_le_of_subset past.2.2

theorem grantCounted {w : Write} {d : Store} {i : Input} (paid : createsGrant w ((desk settings).exec w d i).2) :
    grantCount d + 1 ≤ grantCount ((desk settings).exec w d i).1 := by
  obtain ⟨⟨grant,rfl⟩,ok⟩ := paid
  obtain ⟨-,grown⟩ := inserted (attemptedOk ok)
  have grown : ((desk settings).exec (.createGrant grant) d i).1 = _ := grown
  rw [grown]
  simp [grantCount]

theorem readsSigner (head : SignerHead) : Program.Writes (fun _ => False) (requireSigner settings head) := by
  refine writesThen writesLift fun _ => writesThen writesLift fun token => writesThen ?_ fun _ => trivial
  unfold requireSignerCsrf
  split
  · trivial
  · exact writesThen writesGet fun expected => writesThen writesLift fun _ => writesLift

theorem signerPreviewAmid {inputs : Input → Prop} {c c' : Running} {own : List (Performed Write Store Input)}
    (sound : (deskOutline settings).Sound c) {head : SignerHead} {view : PreviewView}
    (run : Amid (desk settings) anyScope inputs c ((desk settings).start (.signing head .previews)) own
      (.ok (.signing (.preview view))) c') :
    ∃ r, SentRevision r c'.store.rows ∧ ∃ g ∈ c'.store.grants, GrantOf view r.id g := by
  obtain ⟨answer,run,same⟩ := amidAnswer run
  cases answer with
  | error error => cases same
  | ok answer =>
    cases same
    rcases amidThen run with ⟨_,same,-⟩ | ⟨_,c₁,own₁,own₂,rfl,first,rest⟩
    · cases same
    obtain ⟨-,before,-⟩ := amidExternal first
    obtain ⟨sound₁,-⟩ := deskLater sound before
    rcases amidThenReads (readsSigner head) rest with ⟨-,-,_,same⟩ | ⟨token,c₂,-,between,rest⟩
    · cases same
    obtain ⟨sound₂,-⟩ := deskLater sound₁ between
    obtain ⟨result,issued,same⟩ := amidAnswer rest
    cases result with
    | error error => cases same
    | ok issuedView =>
      cases same
      obtain ⟨-,-,post⟩ := amidHolds deskStarts (fun _ _ => trivial) sound₂
        (ensuresSignerPreview (hashToken settings token) none sound₂.inv) issued
      exact post view rfl

end

/-- What is known of every preview, in the configuration it starts in. -/
structure PreviewsExact (settings : RouteSettings) (c : Running) : Prop where
  receipts : c.finished previewed ≤ c.store.grants.length
  issued : ∀ inputs actor documentId own view c',
    Amid (desk settings) anyScope inputs c ((desk settings).start (.issuePreview actor documentId)) own
      (.ok (.preview view)) c' →
    (actor.organizationId = settings.desk.organizationId ∧ documentId = settings.desk.documentId) ∧
      .documentRead ∈ accountUserActions actor.role ∧ ∃ g r, Issued settings inputs view g r own c'.store ∧
      (∃ c₁, Run (desk settings) anyScope c c₁ ∧ c₁.store.rows.document.currentRevisionId = some r.id) ∧
      ∀ c₂, Run (desk settings) anyScope c' c₂ → ∀ inputs' own' value c₃,
        Amid (desk settings) anyScope inputs' c₂ ((desk settings).start (.streamPreview view.grantId view.tokenHash)) own'
          value c₃ →
        own' = [] ∧ ∃ result, value = result.map Answer.shown ∧ Streamed settings inputs' g r result
  streamed : ∀ inputs grantId tokenHash own shown c',
    Amid (desk settings) anyScope inputs c ((desk settings).start (.streamPreview grantId tokenHash)) own
      (.ok (.shown shown)) c' →
    own = [] ∧ ∃ g ∈ c'.store.grants, ∃ r ∈ c'.store.rows.revisions, g.id = grantId ∧ g.tokenHash = tokenHash ∧
      g.revisionId = r.id ∧ g.expiresAt = g.createdAt + settings.desk.previewTtlMs ∧ Streamed settings inputs g r
        (.ok shown)

/-- A grant opens one revision, and opens it exactly until its time is past. There are never more
previews issued than grants. One that is issued to an account goes to an actor who may read, and
is of the revision that was current; whatever is done to the document from then on, the stream
with its token ends with what object storage has under the key of that revision, or is refused
because the grant has expired. Nothing is streamed without a grant, and a stream writes nothing. -/
def PreviewGrantsExact (settings : RouteSettings) : Prop :=
  ∀ draft c, Run (desk settings) anyScope (drafted draft) c → PreviewsExact settings c

theorem previewGrantsExact (settings : RouteSettings) : PreviewGrantsExact settings := by
  intro draft c run
  have sound := deskSound run
  refine ⟨?_,fun inputs actor documentId own view c' amid => ?_,fun inputs grantId tokenHash own shown c' amid => ?_⟩
  · exact runReceipts deskStarts (fun request _ => previewOwed request) (fun _ _ => grantsGrow)
      (fun _ _ _ _ _ => grantCounted)
      (deskSound .refl).inv run
  · obtain ⟨result,issued,same⟩ := amidAnswer amid
    cases result with
    | error error => cases same
    | ok answered =>
      cases same
      obtain ⟨_,allowed,run₁⟩ := amidThenLift issued
      rcases amidThenFind run₁ with ⟨-,_,same⟩ | ⟨document,c₁,first,found,run₂⟩
      · cases same
      obtain ⟨revisionId,current,run₃⟩ := amidThenLift run₂
      rcases amidThenFind run₃ with ⟨-,_,same⟩ | ⟨r,c₂,second,row,run₄⟩
      · cases same
      obtain ⟨here,rfl⟩ := foundDocument found
      obtain ⟨sound₂,-⟩ := deskLater sound (first.trans second)
      obtain ⟨g,made⟩ := issueAmid sound₂ (List.mem_of_find?_eq_some row) run₄
      have id : r.id = revisionId := by simpa using List.find?_some row
      refine ⟨here,allowedIn allowed,g,r,made,⟨c₁,first,?_⟩,fun c₃ later inputs' own' value c₄ streamed => ?_⟩
      · rw [id]
        cases named : c₁.store.rows.document.currentRevisionId with
        | none => rw [named] at current; cases current
        | some other => rw [named] at current; cases current; rfl
      · exact issuedStreams (deskAmid sound amid).1 made.grant made.listed made.made later streamed
  · obtain ⟨result,streamed,same⟩ := amidAnswer amid
    cases result with
    | error error => cases same
    | ok answered =>
      cases same
      obtain ⟨none,g,mem,r,listed,id,token,named,ends⟩ := streamedBy sound streamed
      exact ⟨none,g,mem,r,listed,id,token,named,(deskAmid sound amid).1.inv.2.lifetime g mem,ends⟩

/-- Object storage gives for the key of a revision what it was given under that key. -/
def Honest (settings : RouteSettings) (inputs : Input → Prop) : Prop :=
  ∀ i, inputs i → ∀ digest stored, i.object (Tenant.sourceRevisionObjectKey digest) = some stored →
    settings.desk.sha256Hex stored.body = digest

/-- What a signer is shown is the upload that was inspected and sent, with nothing drawn on it:
the same for every signer and for good, though others have signed in between, and the artifact
is drawn on no other upload. -/
def SignersShownSource (settings : RouteSettings) : Prop :=
  ∀ draft c, Run (desk settings) anyScope (drafted draft) c → ∀ inputs head own view c',
    Amid (desk settings) anyScope inputs c ((desk settings).start (.signing head .previews)) own
      (.ok (.signing (.preview view))) c' →
    ∃ r, SentRevision r c'.store.rows ∧ (∃ g ∈ c'.store.grants, GrantOf view r.id g) ∧
      ∀ c₁, Run (desk settings) anyScope c' c₁ →
        SentRevision r c₁.store.rows ∧ (∀ a ∈ c₁.store.rows.artifact, a.body.uploaded = r.body.uploaded) ∧
        (∀ inputs', Honest settings inputs' → ∀ own' shown c₂,
          Amid (desk settings) anyScope inputs' c₁ ((desk settings).start (.streamPreview view.grantId view.tokenHash))
            own'
            (.ok (.shown shown)) c₂ → settings.desk.sha256Hex shown.body = settings.desk.sha256Hex r.body) ∧
        ∀ inputs' head' own' view' c₂,
          Amid (desk settings) anyScope inputs' c₁ ((desk settings).start (.signing head' .previews)) own'
            (.ok (.signing (.preview view'))) c₂ → ∃ g ∈ c₂.store.grants, GrantOf view' r.id g

theorem signersShownSource (settings : RouteSettings) : SignersShownSource settings := by
  intro draft c run inputs head own view c' amid
  obtain ⟨sound,-⟩ := deskAmid (deskSound run) amid
  obtain ⟨r,sent,g,mem,made⟩ := signerPreviewAmid (deskSound run) amid
  refine ⟨r,sent,⟨g,mem,made⟩,fun c₁ later => ?_⟩
  obtain ⟨sound₁,past⟩ := soundRun sound later
  have kept := sound₁.inv.1.2
  have still := sentLater sent past kept
  refine ⟨still,fun a stored => ?_,fun inputs' honest own' shown c₂ streamed => ?_,fun inputs' head' own' view' c₂
    again => ?_⟩
  · exact kept.shown.artifact a stored r (sourceOf still.only).1
  · obtain ⟨-,result,same,ends⟩ := issuedStreams sound mem (sourceOf sent.only).1 made later streamed
    cases ends with
    | shown i j given inTime stored found =>
      cases same
      exact honest j given.2 _ stored found
    | expired i given late => cases same
    | unavailable i j given inTime error refused => cases same
  · obtain ⟨sound₂,rel₂⟩ := deskAmid sound₁ again
    obtain ⟨r',sent',g',mem',made'⟩ := signerPreviewAmid sound₁ again
    have only : sources c₂.store.rows = [r] :=
      (sentLater still ((around settings).past ⟨sound₁.inv,rel₂⟩) sound₂.inv.1.2).only
    rw [sent'.only] at only
    cases only
    exact ⟨g',mem',made'⟩

end ESign.Desk
