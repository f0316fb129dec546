import ESign.DeskOutline
import ESign.Receipts

/-! Downloads of the artifact. Object storage is not trusted: a body that is handed out has
the digest of the artifact, the artifact is the one the document keeps for ever, and the
event was in the log before the body left. -/
namespace ESign.Desk
open StoreProgram StoreProgram.Fallible StoreProgram.Outline Accounts

/-- What object storage may have answered for a key. -/
def Fetched (inputs : Input → Prop) (key : ObjectKey) : Except AppError StoredBytes → Prop
  | .ok stored => ∃ i, inputs i ∧ i.object key = some stored
  | .error error => ∃ i, inputs i ∧ (i.rows.failure = some error ∨ (i.object key = none ∧ error = missingObject))

section

variable {settings : RouteSettings} {env : Scope Store Write Request} {inputs : Input → Prop} {c c' : Running}
  {own : List (Performed Write Store Input)}

theorem amidExternal {value : Except AppError Unit} (run : Amid (desk settings) env inputs c external own value c') :
    own = [] ∧ Run (desk settings) env c c' ∧ ∃ i, inputs i ∧ value = i.rows.failure.elim (.ok ()) .error := by
  cases run with
  | read i given others rest =>
    cases rest
    exact ⟨rfl,others,i,given,rfl⟩

theorem amidObject {key : ObjectKey} {value : Except AppError StoredBytes}
    (run : Amid (desk settings) env inputs c (getObject key) own value c') :
    own = [] ∧ Run (desk settings) env c c' ∧ Fetched inputs key value := by
  rcases amidThen run with ⟨error,rfl,failed⟩ | ⟨_,c₁,own₁,own₂,rfl,first,rest⟩
  · obtain ⟨rfl,later,i,given,same⟩ := amidExternal failed
    refine ⟨rfl,later,i,given,.inl ?_⟩
    cases failure : i.rows.failure with
    | none => rw [failure] at same; cases same
    | some other => rw [failure] at same; cases same; rfl
  · obtain ⟨rfl,before,-⟩ := amidExternal first
    obtain ⟨c₂,i,given,after,last⟩ := amidThenGet rest
    obtain ⟨rfl,rfl,same⟩ := amidLift last
    refine ⟨rfl,before.trans after,?_⟩
    cases found : i.object key with
    | none =>
      rw [found] at same
      exact same ▸ ⟨i,given,.inr ⟨found,rfl⟩⟩
    | some stored =>
      rw [found] at same
      exact same ▸ ⟨i,given,found⟩

theorem allowedIn {actor : AccountUserActor Id} {action : AuthorizationAction} {documentId : Option Id}
    (ok : assertAllowed (.accountUser actor) action ⟨actor.organizationId,documentId,none⟩ = .ok ()) :
    action ∈ accountUserActions actor.role := by
  obtain ⟨_,-,ok⟩ := bindOk.mp ok
  exact of_decide_eq_true (checkOk.mp ok)

theorem foundDocument {organizationId documentId : Id} {d : Store} {document : Document}
    (found : findDocument settings.desk organizationId documentId d = some document) :
    (organizationId = settings.desk.organizationId ∧ documentId = settings.desk.documentId) ∧
    document = d.rows.document := by
  unfold findDocument at found
  split at found <;> try contradiction
  rename_i here
  exact ⟨here,(Option.some.inj found).symm⟩

end

/-- A download was answered: who may have asked, what was handed out, and what was logged. -/
structure Downloaded (settings : RouteSettings) (actor : AccountUserActor Id) (documentId : Id) (download : Download)
    (artifact : FinalizedArtifact) (own : List (Performed Write Store Input)) (d : Store) : Prop where
  here : actor.organizationId = settings.desk.organizationId ∧ documentId = settings.desk.documentId
  allowed : .downloadArtifact ∈ accountUserActions actor.role
  finalized : d.rows.document.state = .finalized
  stored : d.rows.artifact = some artifact
  bytes : settings.desk.sha256Hex download.body = settings.desk.sha256Hex artifact.body
  digest : download.sha256Digest = settings.desk.sha256Hex artifact.body
  logged : ∃ before i now, own = [⟨.append (downloadedEvent actor artifact now),before,i⟩] ∧
    d.rows.audit = before.rows.audit ++ [downloadedEvent actor artifact now]

section

variable {settings : RouteSettings} {inputs : Input → Prop} {c c' : Running} {own : List (Performed Write Store Input)}

theorem soundRun (sound : (deskOutline settings).Sound c) (run : Run (desk settings) anyScope c c') :
    (deskOutline settings).Sound c' ∧ DeskPast c.store.rows c'.store.rows := by
  obtain ⟨sound',rel⟩ := deskLater sound run
  exact ⟨sound',(around settings).past ⟨sound.inv,rel⟩⟩

theorem artifactLater {a b : Envelope} {artifact : FinalizedArtifact} (past : DeskPast a b)
    (made : a.artifact = some artifact) :
    b.artifact = some artifact := (past.2.2.final.artifact (by rw [made]; rfl)).trans made

theorem finalizedLater {a b : Envelope} (past : DeskPast a b) (kept : Kept b) (final : a.document.state = .finalized) :
    b.document.state = .finalized := by
  obtain ⟨artifact,_,_,record⟩ := past.1.2.shown.final.final final
  by_contra other
  obtain ⟨missing,-⟩ := kept.shown.final.unfinal other
  rw [artifactLater past record.stored] at missing
  cases missing

theorem downloadedAmid {actor : AccountUserActor Id} {documentId : Id} (sound : (deskOutline settings).Sound c)
    {download : Download}
    (run : Amid (desk settings) anyScope inputs c (downloadFinalizedArtifact settings.desk actor documentId) own
      (.ok download) c') : ∃ artifact, Downloaded settings actor documentId download artifact own c'.store := by
  obtain ⟨_,allowed,run⟩ := amidThenLift run
  rcases amidThenFind run with ⟨-,_,same⟩ | ⟨document,c₁,first,found,run⟩
  · cases same
  obtain ⟨final,run⟩ := amidThenEnsure run
  rcases amidThenFind run with ⟨-,_,same⟩ | ⟨artifact,c₂,second,made,run⟩
  · cases same
  rcases amidThen run with ⟨_,same,-⟩ | ⟨stored,c₃,own₁,own₂,rfl,fetch,rest⟩
  · cases same
  obtain ⟨rfl,third,-⟩ := amidObject fetch
  obtain ⟨intact,rest⟩ := amidThenEnsure rest
  obtain ⟨c₄,i,-,fourth,rest⟩ := amidThenGet rest
  rcases amidThen rest with ⟨_,same,-⟩ | ⟨_,c₅,own₃,own₄,rfl,append,last⟩
  · cases same
  obtain ⟨c₆,j,fifth,rfl,answered,rfl⟩ := amidPerform append
  obtain ⟨rfl,rfl,same⟩ := amidLift last
  cases same
  obtain ⟨here,rfl⟩ := foundDocument found
  have bytes := (of_decide_eq_true intact).1
  obtain ⟨sound₁,-⟩ := soundRun sound first
  obtain ⟨sound₂,past₂⟩ := soundRun sound₁ second
  obtain ⟨sound₆,past₆⟩ := soundRun sound₂ (third.trans (fourth.trans fifth))
  have past := past₂.2.2.trans past₆.2.2
  have grown := appended (attemptedOk answered.symm)
  have grown : ((desk settings).exec (.append (downloadedEvent actor artifact i.rows.now)) c₆.store j).1 = _ := grown
  have state := finalizedLater ⟨past₂.1,past₂.2.1.trans past₆.2.1,past⟩ sound₆.inv.1.2 (of_decide_eq_true final)
  have kept := artifactLater past₆ made
  refine ⟨artifact,here,allowedIn allowed,?_,?_,bytes,rfl,c₆.store,j,i.rows.now,rfl,?_⟩
  · rw [grown]
    exact state
  · rw [grown]
    exact kept
  · rw [grown]

theorem refusedDownload {actor : AccountUserActor Id} {documentId : Id} {error : AppError}
    (run : Amid (desk settings) anyScope inputs c (downloadFinalizedArtifact settings.desk actor documentId) own
      (.error error) c') : ∀ q ∈ own, (desk settings).after q = q.before := by
  have nothing : own = [] → ∀ q ∈ own, (desk settings).after q = q.before := fun none => none ▸ List.forall_mem_nil _
  rcases amidLifted run with refused | ⟨_,-,run⟩
  · exact nothing refused.1
  rcases amidThenFind run with refused | ⟨document,c₁,-,-,run⟩
  · exact nothing refused.1
  rcases amidEnsured run with refused | ⟨-,run⟩
  · exact nothing refused.1
  rcases amidThenFind run with refused | ⟨artifact,c₂,-,-,run⟩
  · exact nothing refused.1
  rcases amidThen run with ⟨_,-,failed⟩ | ⟨stored,c₃,own₁,own₂,rfl,fetch,rest⟩
  · exact nothing (amidObject failed).1
  obtain ⟨rfl,-,-⟩ := amidObject fetch
  rcases amidEnsured rest with refused | ⟨-,rest⟩
  · exact nothing refused.1
  obtain ⟨c₄,i,-,-,rest⟩ := amidThenGet rest
  rcases amidThen rest with ⟨_,-,failed⟩ | ⟨_,c₅,own₃,own₄,rfl,append,last⟩
  · obtain ⟨c₆,j,-,rfl,answered,-⟩ := amidPerform failed
    refine List.forall_mem_singleton.mpr (attemptedFailed fun ok => ?_)
    have same := answered.trans ok
    cases same
  · obtain ⟨-,-,same⟩ := amidLift last
    cases same

end

/-! The receipts. -/

def handedOut : Except AppError Answer → Bool
  | .ok (.downloaded _) => true
  | _ => false

def logsDownload (w : Write) (answer : Except AppError Unit) : Prop :=
  (∃ event, w = .append event ∧ event.type = .artifactDownloaded) ∧ answer = .ok ()

def downloads (d : Store) : Nat := d.rows.audit.countP (fun event => event.type = .artifactDownloaded)

theorem downloadOwed (settings : RouteSettings) (request : Request) :
    ((desk settings).start request).Paid (fun answer => handedOut answer = true) logsDownload := by
  have failed : ∀ error, ¬ handedOut (.error error) = true := fun _ => Bool.false_ne_true
  cases request with
  | downloadArtifact actor documentId =>
    have owed : Program.Paid (fun result : Except AppError Download => result.isOk = true) logsDownload
        (downloadFinalizedArtifact settings.desk actor documentId) := by
      refine paidThen errorUnpaid _ fun _ => paidThen errorUnpaid _ fun document => paidThen errorUnpaid _ fun _ => ?_
      refine paidThen errorUnpaid _ fun artifact => paidThen errorUnpaid _ fun stored => paidThen errorUnpaid _ fun _ =>
        ?_
      exact paidThen errorUnpaid _ fun now => paidPerform errorUnpaid ⟨⟨_,rfl,rfl⟩,rfl⟩
    exact paidMap failed (fun _ _ => rfl) owed
  | rows request => exact paidThen failed _ fun _ => Bool.false_ne_true
  | issuePreview actor documentId => exact paidThen failed _ fun _ => Bool.false_ne_true
  | streamPreview grantId tokenHash => exact paidThen failed _ fun _ => Bool.false_ne_true
  | signing head route => exact paidThen failed _ fun _ => Bool.false_ne_true

theorem downloadsGrow {a b : Store} (past : (deskOutline settings).Past a b) : downloads a ≤ downloads b :=
  past.2.1.2.audit.sublist.countP_le

theorem downloadCounted {w : Write} {d : Store} {i : Input} (paid : logsDownload w ((desk settings).exec w d i).2) :
    downloads d + 1 ≤ downloads ((desk settings).exec w d i).1 := by
  obtain ⟨⟨event,rfl,type⟩,ok⟩ := paid
  have grown := appended (attemptedOk ok)
  have grown : ((desk settings).exec (.append event) d i).1 = _ := grown
  rw [grown]
  simp [downloads,type]

/-- What is known of every download, in the configuration it starts in: none was handed out
without its event, and one that starts here is answered with the artifact or logs nothing. -/
structure Accounted (settings : RouteSettings) (c : Running) : Prop where
  receipts : c.finished handedOut ≤ downloads c.store
  answered : ∀ inputs actor documentId own download c',
    Amid (desk settings) anyScope inputs c ((desk settings).start (.downloadArtifact actor documentId)) own
      (.ok (.downloaded download)) c' →
    ∃ artifact, Downloaded settings actor documentId download artifact own c'.store ∧
      ∀ c'', Run (desk settings) anyScope c' c'' → c''.store.rows.document.state = .finalized ∧
        c''.store.rows.artifact = some artifact ∧ c'.store.rows.audit <+: c''.store.rows.audit
  refused : ∀ inputs actor documentId own error c',
    Amid (desk settings) anyScope inputs c ((desk settings).start (.downloadArtifact actor documentId)) own
      (.error error) c' →
    ∀ q ∈ own, (desk settings).after q = q.before

/-- There are never more downloads handed out than download events in the log. A download that
is answered, whatever runs around it and whatever object storage gives, was asked for by an
actor who may, of the organization of the document; it has the digest of the one artifact, and
its event was logged before. One that fails logs nothing. -/
def DownloadsAccounted (settings : RouteSettings) : Prop :=
  ∀ draft c, Run (desk settings) anyScope (drafted draft) c → Accounted settings c

theorem downloadsAccounted (settings : RouteSettings) : DownloadsAccounted settings := by
  intro draft c run
  refine ⟨?_,fun inputs actor documentId own download c' amid => ?_,fun inputs actor documentId own error c' amid => ?_⟩
  · exact runReceipts deskStarts (fun request _ => downloadOwed settings request) (fun _ _ => downloadsGrow)
      (fun _ _ _ _ _ => downloadCounted) (deskSound .refl).inv run
  · obtain ⟨result,first,same⟩ := amidAnswer amid
    cases result with
    | error error => cases same
    | ok answered =>
      cases same
      obtain ⟨artifact,downloaded⟩ := downloadedAmid (deskSound run) first
      have ended := (deskAmid (deskSound run) amid).1
      refine ⟨artifact,downloaded,fun c'' later => ?_⟩
      obtain ⟨sound,past⟩ := soundRun ended later
      exact ⟨finalizedLater past sound.inv.1.2 downloaded.finalized,artifactLater past downloaded.stored,past.2.2.audit⟩
  · obtain ⟨result,first,same⟩ := amidAnswer amid
    cases result with
    | ok answered => cases same
    | error other => exact refusedDownload first

end ESign.Desk
