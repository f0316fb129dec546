import ESign.AccountConfinement
import ESign.Previews

/-! What the signing routes write. A write of a route is allowed by what the request has shown:
its origin, its token, and for all but the exchange the CSRF token of the session. A request that
has not shown these may end a session that has expired, and do nothing else. -/
namespace ESign.Desk
open StoreProgram StoreProgram.Fallible StoreProgram.Outline Accounts

/-- The session was found by the token, exchanged or not, with the signer it is for. -/
structure Bearer (tokenHash : Id) (exchanged : Bool) (l : LoadedSignerSession) : Prop where
  token : l.session.tokenHash = tokenHash
  exchanged : l.session.consumedAt.isSome = exchanged
  signer : l.signer.id = l.session.signerId

section

variable (settings : RouteSettings) (inputs : Input → Prop) (c : Running)

/-- A moment of the request before the write. -/
def Earlier (q : Performed Write Store Input) (holds : Store → Prop) : Prop :=
  ∃ c₁ c₂, Run (desk settings) anyScope c c₁ ∧ Run (desk settings) anyScope c₁ c₂ ∧ c₂.store = q.before ∧ holds c₁.store

/-- The session marked was found by the token, open and past its expiry on a clock the request
has read. -/
def Expires (tokenHash : Id) (q : Performed Write Store Input) : Prop :=
  ∃ found i, Earlier settings c q (fun d => SigningSessions.findByTokenHash tokenHash d.rows = some found) ∧
    found.open = true ∧ inputs i ∧ found.expiresAt ≤ i.rows.now ∧ q.write = .rows (.markExpired found.id)

/-- The record that completing begins for a signer: the request has found it or created it. -/
def Begun (own : List (Performed Write Store Input)) (signerId recordId : Id) : Prop :=
  ∃ record, record.id = recordId ∧ record.principalId = signerId ∧ record.route = .completeSigning ∧
    ((∃ c₁, Run (desk settings) anyScope c c₁ ∧
        Idempotency.find signerId .completeSigning record.key c₁.store.rows = some record) ∨
      ∃ p ∈ own, p.write = .rows (.createIdempotency record))

/-- What a route may write for the session of a token: it acts in that session, keeps the record
that its signer's completing has begun, or grants a preview. -/
def ActsFor (own : List (Performed Write Store Input)) (tokenHash : Id) (q : Performed Write Store Input) : Prop :=
  match q.write with
  | .rows (.viewed u) => Bearer tokenHash true u.loaded
  | .rows (.consent u) => Bearer tokenHash true u.loaded
  | .rows (.decline u) => Bearer tokenHash true u.loaded
  | .rows (.complete u) => Bearer tokenHash true u.loaded
  | .rows (.createIdempotency record) =>
      ∃ l, Bearer tokenHash true l ∧ record.principalId = l.signer.id ∧ record.route = .completeSigning
  | .rows (.completeIdempotency recordId _) => ∃ l, Bearer tokenHash true l ∧ Begun settings c own l.signer.id recordId
  | .rows (.markExpired _) => Expires settings inputs c tokenHash q
  | .createGrant _ => True
  | _ => False

def Exchanges (tokenHash : Id) (q : Performed Write Store Input) : Prop :=
  match q.write with
  | .rows (.exchange u) => Bearer tokenHash false u.loaded
  | .rows (.markExpired _) => Expires settings inputs c tokenHash q
  | _ => False

end

section

variable {settings : RouteSettings} {inputs : Input → Prop} {c c₁ : Running} {own own' : List (Performed Write Store Input)}
  {tokenHash : Id} {q : Performed Write Store Input}

/-! What was found by a part of the request was found by the request. -/

theorem Earlier.since {holds : Store → Prop} (later : Run (desk settings) anyScope c c₁) (h : Earlier settings c₁ q holds) :
    Earlier settings c q holds := by
  obtain ⟨c₂,c₃,first,rest⟩ := h
  exact ⟨c₂,c₃,later.trans first,rest⟩

theorem Expires.since (later : Run (desk settings) anyScope c c₁) (h : Expires settings inputs c₁ tokenHash q) :
    Expires settings inputs c tokenHash q := by
  obtain ⟨found,i,moment,rest⟩ := h
  exact ⟨found,i,moment.since later,rest⟩

theorem Begun.since {signerId recordId : Id} (later : Run (desk settings) anyScope c c₁) (part : ∀ p ∈ own, p ∈ own')
    (h : Begun settings c₁ own signerId recordId) : Begun settings c own' signerId recordId := by
  obtain ⟨record,id,signer,route,⟨c₂,first,found⟩ | ⟨p,mem,created⟩⟩ := h
  · exact ⟨record,id,signer,route,.inl ⟨c₂,later.trans first,found⟩⟩
  · exact ⟨record,id,signer,route,.inr ⟨p,part p mem,created⟩⟩

theorem ActsFor.since (later : Run (desk settings) anyScope c c₁) (part : ∀ p ∈ own, p ∈ own')
    (h : ActsFor settings inputs c₁ own tokenHash q) : ActsFor settings inputs c own' tokenHash q := by
  obtain ⟨w,before,i⟩ := q
  cases w with
  | rows w =>
    cases w with
    | completeIdempotency recordId response =>
      obtain ⟨l,bearer,begun⟩ := h
      exact ⟨l,bearer,begun.since later part⟩
    | markExpired sessionId => exact Expires.since later h
    | _ => exact h
  | _ => exact h

theorem Exchanges.since (later : Run (desk settings) anyScope c c₁) (h : Exchanges settings inputs c₁ tokenHash q) :
    Exchanges settings inputs c tokenHash q := by
  obtain ⟨w,before,i⟩ := q
  cases w with
  | rows w =>
    cases w with
    | markExpired sessionId => exact Expires.since later h
    | _ => exact h
  | _ => exact h

theorem expiresActs (h : Expires settings inputs c tokenHash q) : ActsFor settings inputs c own tokenHash q := by
  have found := h
  obtain ⟨session,i,-,-,-,-,write⟩ := h
  unfold ActsFor
  rw [write]
  exact found

theorem expiresExchanges (h : Expires settings inputs c tokenHash q) : Exchanges settings inputs c tokenHash q := by
  have found := h
  obtain ⟨session,i,-,-,-,-,write⟩ := h
  unfold Exchanges
  rw [write]
  exact found

end

section

variable {settings : ESign.Settings}

theorem loadedBearer (input : LoadSignerSessionInput) :
    Program.Results (fun _ => True) (fun _ _ => True)
      (fun result => ∀ loaded, result = .ok loaded → Bearer input.tokenHash input.requireExchanged loaded)
      (loadSignerSession settings input) := by
  have failed : ∀ (error : AppError) (loaded : LoadedSignerSession),
    (Except.error error : Except AppError LoadedSignerSession) =
      .ok loaded → Bearer input.tokenHash input.requireExchanged loaded := fun _ _ same => by cases same
  refine resultsFound (failed _) fun s found row => ?_
  refine resultsThen failed _ fun now => resultsThen failed _ fun _ => resultsThen failed _ fun _ => ?_
  split
  · exact resultsThen failed _ fun _ => failed _
  · refine resultsEnsured (failed _) fun exchanged => resultsThen failed _ fun document => resultsThen failed _ fun _ =>
      ?_
    refine resultsFound (failed _) fun s' signer named => resultsThen failed _ fun _ => ?_
    intro loaded same
    cases same
    exact ⟨by simpa using List.find?_some row,of_decide_eq_true exchanged,by simpa using List.find?_some named⟩

end

section

variable {settings : RouteSettings} {inputs : Input → Prop} {c c' : Running} {own : List (Performed Write Store Input)}

theorem onRowsBind {α β : Type} (p : UseCase α) (f : α → UseCase β) :
    onRows (p >>= f) = onRows p >>= fun value => onRows (f value) := insideBind inset p f

theorem onRowsEnsure (holds : Bool) (error : AppError) : onRows (ensure holds error) = ensure holds error := by
  cases holds <;> rfl

theorem performAmid {holds : Bool} {w : ESign.Write} {value : Except AppError Unit}
    (run : Amid (desk settings) anyScope inputs c (onRows (when holds (perform w))) own value c') :
    own = [] ∨ holds = true ∧ ∃ c₁ i, Run (desk settings) anyScope c c₁ ∧ own = [⟨.rows w,c₁.store,i⟩] := by
  cases holds with
  | false => exact .inl (amidLift run).1
  | true =>
    obtain ⟨c₁,i,later,same,-⟩ := amidPerform run
    exact .inr ⟨rfl,c₁,i,later,same⟩

theorem expiredAmid {c₁ c₂ : Running} {tokenHash : Id} {found : SigningSession} {i : Input} {α : Type} {value : Except AppError α}
    (later : Run (desk settings) anyScope c c₁)
    (row : SigningSessions.findByTokenHash tokenHash c₁.store.rows = some found)
    (toClock : Run (desk settings) anyScope c₁ c₂) (given : inputs i) (expired : found.expiresAt ≤ i.rows.now)
    (run : Amid (desk settings) anyScope inputs c₂ (onRows (rejectExpired found)) own value c') :
    (∀ q ∈ own, Expires settings inputs c tokenHash q) ∧ ∀ result, value ≠ .ok result := by
  have marks : ∀ {own : List (Performed Write Store Input)} {value : Except AppError Unit} {c' : Running},
      Amid (desk settings) anyScope inputs c₂ (onRows (when found.open (perform (.markExpired found.id)))) own value c' →
      ∀ q ∈ own, Expires settings inputs c tokenHash q := by
    intro own value c' run q mem
    rcases performAmid run with rfl | ⟨isOpen,c₃,j,toMark,rfl⟩
    · cases mem
    · rw [List.mem_singleton.mp mem]
      exact ⟨found,i,⟨c₁,c₃,later,toClock.trans toMark,rfl,row⟩,isOpen,given,expired,rfl⟩
  unfold rejectExpired at run
  rw [onRowsBind] at run
  rcases amidThen run with ⟨_,rfl,first⟩ | ⟨_,c₃,own₁,own₂,rfl,first,rest⟩
  · exact ⟨marks first,nofun⟩
  · have rest : Amid (desk settings) anyScope inputs c₃ (lift (.error rejectToken) : DeskCase α) own₂ value c' := rest
    obtain ⟨rfl,-,rfl⟩ := amidLift rest
    rw [List.append_nil]
    exact ⟨marks first,nofun⟩

theorem loadAmid {input : LoadSignerSessionInput} {value : Except AppError LoadedSignerSession}
    (run : Amid (desk settings) anyScope inputs c (onRows (loadSignerSession settings.desk.rows input)) own value c') :
    (∀ q ∈ own, Expires settings inputs c input.tokenHash q) ∧
      ∀ loaded, value = .ok loaded → Bearer input.tokenHash input.requireExchanged loaded ∧ own = [] := by
  have results : Program.Results inputs (fun _ _ => True)
      (fun result => ∀ loaded, result = .ok loaded → Bearer input.tokenHash input.requireExchanged loaded)
      (onRows (loadSignerSession settings.desk.rows input)) := resultsInside (loadedBearer input)
  have bearer := amidResults (fun _ _ _ _ => trivial) results run
  suffices (∀ q ∈ own, Expires settings inputs c input.tokenHash q) ∧ ∀ loaded, value = .ok loaded → own = [] from
    ⟨this.1,fun loaded same => ⟨bearer loaded same,this.2 loaded same⟩⟩
  have silent : own = [] → (∀ q ∈ own, Expires settings inputs c input.tokenHash q) ∧ ∀ loaded, value = .ok loaded → own = [] :=
    fun none => ⟨by rw [none]; exact List.forall_mem_nil _,fun _ _ => none⟩
  unfold loadSignerSession at run
  rw [onRowsBind] at run
  rcases amidThenFind run with ⟨none,-⟩ | ⟨found,c₁,later,row,run⟩
  · exact silent none
  rw [onRowsBind] at run
  obtain ⟨c₂,i,given,toClock,run⟩ := amidThenGet run
  rw [onRowsBind,onRowsEnsure] at run
  rcases amidEnsured run with ⟨none,-⟩ | ⟨-,run⟩
  · exact silent none
  rw [onRowsBind,onRowsEnsure] at run
  rcases amidEnsured run with ⟨none,-⟩ | ⟨-,run⟩
  · exact silent none
  split at run
  · rename_i expired
    obtain ⟨marks,never⟩ := expiredAmid later row toClock given expired run
    exact ⟨marks,fun loaded same => absurd same (never loaded)⟩
  · refine silent (amidReads ?_ run).1
    refine writesInside (writesThen writesEnsure fun _ => writesThen writesGet fun document => ?_)
    refine writesThen writesEnsure fun _ => writesThen writesFind fun signer => ?_
    exact writesThen writesEnsure fun _ => trivial

theorem bearerAmid {β : Type} {input : LoadSignerSessionInput} {f : LoadedSignerSession → UseCase β}
    {value : Except AppError β} {P : Performed Write Store Input → Prop}
    (run : Amid (desk settings) anyScope inputs c (onRows (loadSignerSession settings.desk.rows input >>= f)) own value c')
    (expires : ∀ q, Expires settings inputs c input.tokenHash q → P q)
    (rest : ∀ loaded c₁, Bearer input.tokenHash input.requireExchanged loaded → Run (desk settings) anyScope c c₁ →
      Amid (desk settings) anyScope inputs c₁ (onRows (f loaded)) own value c' → ∀ q ∈ own, P q) : ∀ q ∈ own, P q := by
  rw [onRowsBind] at run
  rcases amidThen run with ⟨_,rfl,first⟩ | ⟨loaded,c₁,own₁,own₂,rfl,first,second⟩
  · exact fun q mem => expires q ((loadAmid first).1 q mem)
  · obtain ⟨bearer,rfl⟩ := (loadAmid first).2 loaded rfl
    exact rest loaded c₁ bearer (amidSilent first rfl) second

/- What a request may write once it has loaded the session, but for its idempotency record. -/
def ActsIn (tokenHash : Id) : Write → Prop
  | .rows (.viewed u) => Bearer tokenHash true u.loaded
  | .rows (.consent u) => Bearer tokenHash true u.loaded
  | .rows (.decline u) => Bearer tokenHash true u.loaded
  | .rows (.complete u) => Bearer tokenHash true u.loaded
  | .createGrant _ => True
  | _ => False

theorem ActsIn.acts {tokenHash : Id} {q : Performed Write Store Input} (h : ActsIn tokenHash q.write) :
    ActsFor settings inputs c own tokenHash q := by
  obtain ⟨w,before,i⟩ := q
  cases w with
  | rows w =>
    cases w with
    | viewed | consent | decline | complete => exact h
    | _ => cases h
  | createGrant grant => exact h
  | append event => cases h

theorem actsViewed (tokenHash : Id) {value : Except AppError Unit}
    (run : Amid (desk settings) anyScope inputs c (onRows (recordSignerViewed settings.desk.rows tokenHash none)) own value c') :
    ∀ q ∈ own, ActsFor settings inputs c own tokenHash q := by
  refine bearerAmid run (fun q => expiresActs) fun loaded c₁ bearer later rest q mem => ActsIn.acts ?_
  exact amidWrites (writesInside (writesThen writesGet fun _ => writesPerform bearer)) rest q mem

theorem actsDecline (input : DeclineToSignInput) {value : Except AppError Unit}
    (run : Amid (desk settings) anyScope inputs c (onRows (declineToSign settings.desk.rows input)) own value c') :
    ∀ q ∈ own, ActsFor settings inputs c own input.tokenHash q := by
  refine bearerAmid run (fun q => expiresActs) fun loaded c₁ bearer later rest q mem => ActsIn.acts ?_
  refine amidWrites (writesInside (writesThen writesGet fun roster => writesThen writesEnsure fun _ => ?_)) rest q mem
  split
  · trivial
  · refine writesThen writesEnsure fun _ => writesThen writesLift fun _ => writesThen writesGet fun now => ?_
    exact writesPerform bearer

theorem ensuredAmid {β : Type} {holds : Bool} {error : AppError} {f : Unit → UseCase β} {value : Except AppError β}
    {P : Performed Write Store Input → Prop}
    (run : Amid (desk settings) anyScope inputs c (onRows (ensure holds error >>= f)) own value c')
    (rest : Amid (desk settings) anyScope inputs c (onRows (f ())) own value c' → ∀ q ∈ own, P q) : ∀ q ∈ own, P q := by
  rw [onRowsBind,onRowsEnsure] at run
  rcases amidEnsured run with ⟨rfl,-⟩ | ⟨-,run⟩
  · exact List.forall_mem_nil _
  · exact rest run

theorem gotAmid {α β : Type} {g : Envelope → ESign.Input → α} {f : α → UseCase β} {value : Except AppError β}
    {P : Performed Write Store Input → Prop}
    (run : Amid (desk settings) anyScope inputs c (onRows (get g >>= f)) own value c')
    (rest : ∀ found c₁, Run (desk settings) anyScope c c₁ →
      Amid (desk settings) anyScope inputs c₁ (onRows (f found)) own value c' → ∀ q ∈ own, P q) : ∀ q ∈ own, P q := by
  rw [onRowsBind] at run
  obtain ⟨c₁,i,-,later,run⟩ := amidThenGet run
  exact rest _ c₁ later run

theorem liftedAmid {α β : Type} {result : Except AppError α} {f : α → UseCase β} {value : Except AppError β}
    {P : Performed Write Store Input → Prop}
    (run : Amid (desk settings) anyScope inputs c (onRows (lift result >>= f)) own value c')
    (rest : ∀ found, Amid (desk settings) anyScope inputs c (onRows (f found)) own value c' → ∀ q ∈ own, P q) :
    ∀ q ∈ own, P q := by
  rw [onRowsBind] at run
  rcases amidLifted run with ⟨rfl,-⟩ | ⟨found,-,run⟩
  · exact List.forall_mem_nil _
  · exact rest found run

theorem actsConsent (input : RecordSignerConsentInput) {value : Except AppError Unit}
    (run : Amid (desk settings) anyScope inputs c (onRows (recordSignerConsent settings.desk.rows input)) own value c') :
    ∀ q ∈ own, ActsFor settings inputs c own input.tokenHash q := by
  refine ensuredAmid run fun run => ensuredAmid run fun run => ensuredAmid run fun run => ?_
  refine bearerAmid run (fun q => expiresActs) fun loaded c₁ bearer later rest q mem => ActsIn.acts ?_
  refine amidWrites (writesInside (writesThen writesGet fun existing => ?_)) rest q mem
  split
  · trivial
  · exact writesThen writesGet fun now => writesThen writesGet fun consentId => writesPerform bearer

theorem rowsAmid {α : Type} {p : UseCase α} {value : Except AppError α} {allowed : ESign.Write → Prop}
    (writes : Program.Writes allowed p) (run : Amid (desk settings) anyScope inputs c (onRows p) own value c') :
    ∀ q ∈ own, ∃ w, q.write = .rows w ∧ allowed w := by
  have inside : Program.Writes (fun w => ∃ v, w = Write.rows v ∧ allowed v) (onRows p) :=
    writesInside (Program.writesMono (fun w h => ⟨w,rfl,h⟩) writes)
  exact amidWrites inside run

theorem returnedAmid {α : Type} {result : α} {value : Except AppError α}
    (run : Amid (desk settings) anyScope inputs c (onRows (pure result)) own value c') : own = [] ∧ value = .ok result := by
  cases run
  exact ⟨rfl,rfl⟩

theorem foundRecord {e : Envelope} {principalId key : Id} {route : Route} {record : IdempotencyRecord}
    (row : Idempotency.find principalId route key e = some record) :
    record.principalId = principalId ∧ record.route = route ∧ record.key = key := by
  simpa using List.find?_some row

theorem begunAmid {input : IdempotencyInput} {value : Except AppError BegunIdempotency} (completing : input.route = .completeSigning)
    (run : Amid (desk settings) anyScope inputs c (onRows (replayOrBeginIdempotency settings.desk.rows input)) own value c') :
    (∀ q ∈ own, ∃ record, q.write = .rows (.createIdempotency record) ∧ record.principalId = input.principalId ∧
        record.route = .completeSigning) ∧
      ∀ recordId, value = .ok (.record recordId) → Begun settings c own input.principalId recordId := by
  unfold replayOrBeginIdempotency at run
  rw [onRowsBind] at run
  obtain ⟨c₁,i,-,later,run⟩ := amidThenGet run
  dsimp only at run
  split at run
  · rename_i record row
    have row : Idempotency.find input.principalId input.route input.key c₁.store.rows = some record := row
    rw [onRowsBind,onRowsEnsure] at run
    rcases amidEnsured run with ⟨rfl,error,rfl⟩ | ⟨-,run⟩
    · exact ⟨List.forall_mem_nil _,nofun⟩
    split at run
    · obtain ⟨rfl,rfl⟩ := returnedAmid run
      exact ⟨List.forall_mem_nil _,nofun⟩
    rw [onRowsBind,onRowsEnsure] at run
    rcases amidEnsured run with ⟨rfl,error,rfl⟩ | ⟨-,run⟩
    · exact ⟨List.forall_mem_nil _,nofun⟩
    obtain ⟨rfl,rfl⟩ := returnedAmid run
    refine ⟨List.forall_mem_nil _,fun recordId same => ?_⟩
    cases same
    obtain ⟨signer,route,key⟩ := foundRecord row
    refine ⟨record,rfl,signer,route.trans completing,.inl ⟨c₁,later,?_⟩⟩
    rw [key,← completing]
    exact row
  · rw [onRowsBind] at run
    obtain ⟨c₂,j,-,later₂,run⟩ := amidThenGet run
    rw [onRowsBind] at run
    rcases amidThen run with ⟨error,rfl,first⟩ | ⟨_,c₃,own₁,own₂,rfl,first,rest⟩
    · obtain ⟨c₄,k,-,rfl,-⟩ := amidPerform first
      refine ⟨fun q mem => ?_,nofun⟩
      rw [List.mem_singleton.mp mem]
      exact ⟨_,rfl,rfl,completing⟩
    · obtain ⟨c₄,k,-,rfl,-⟩ := amidPerform first
      obtain ⟨rfl,rfl⟩ := returnedAmid rest
      refine ⟨fun q mem => ?_,fun recordId same => ?_⟩
      · rw [List.mem_singleton.mp mem]
        exact ⟨_,rfl,rfl,completing⟩
      · cases same
        exact ⟨_,rfl,rfl,completing,.inr ⟨_,List.mem_cons_self,rfl⟩⟩

theorem committedActs {loaded : LoadedSignerSession} {tokenHash recordId : Id} {source : Option Id}
    {u : Id → Date → CompleteUnit} (same : ∀ revisionId now, (u revisionId now).loaded = loaded)
    (bearer : Bearer tokenHash true loaded) {value : Except AppError ResponseBody} {whole : List (Performed Write Store Input)}
    {c₀ : Running} (begun : Begun settings c₀ whole loaded.signer.id recordId)
    (run : Amid (desk settings) anyScope inputs c (onRows (commitSigning u source recordId)) own value c') :
    ∀ q ∈ own, ActsFor settings inputs c₀ whole tokenHash q := by
  have writes : Program.Writes (fun w => (∃ v, w = .complete v ∧ v.loaded = loaded) ∨
      ∃ response, w = .completeIdempotency recordId response) (commitSigning u source recordId) := by
    refine writesThen writesGet fun now => writesThen writesExternal fun _ => writesThen writesLift fun revisionId => ?_
    refine writesThen (writesPerform (.inl ⟨_,rfl,same _ _⟩)) fun _ => ?_
    exact writesThen (writesPerform (.inr ⟨_,rfl⟩)) fun _ => trivial
  intro q mem
  have wrote := rowsAmid writes run q mem
  obtain ⟨w,before,i⟩ := q
  obtain ⟨v,rfl,⟨u,rfl,rfl⟩ | ⟨response,rfl⟩⟩ := wrote
  · exact bearer
  · exact ⟨loaded,bearer,begun⟩

theorem actsComplete (input : CompleteSigningInput) {value : Except AppError ResponseBody}
    (run : Amid (desk settings) anyScope inputs c (onRows (completeSigning settings.desk.rows input)) own value c') :
    ∀ q ∈ own, ActsFor settings inputs c own input.tokenHash q := by
  refine ensuredAmid run fun run => ?_
  refine bearerAmid run (fun q => expiresActs) fun loaded c₁ bearer later run => ?_
  refine gotAmid run fun roster c₂ later₂ run => gotAmid run fun fields c₃ later₃ run => ?_
  dsimp only at run
  split at run
  · obtain ⟨rfl,-⟩ := returnedAmid run
    exact List.forall_mem_nil _
  refine ensuredAmid run fun run => gotAmid run fun consent c₄ later₄ run => ensuredAmid run fun run => ?_
  refine liftedAmid run fun selected run => liftedAmid run fun signature run => liftedAmid run fun initials run => ?_
  refine liftedAmid run fun _ run => liftedAmid run fun key run => gotAmid run fun now c₅ later₅ run => ?_
  rw [onRowsBind] at run
  have toBegin := later.trans (later₂.trans (later₃.trans (later₄.trans later₅)))
  rcases amidThen run with ⟨error,rfl,first⟩ | ⟨begun,c₆,own₁,own₂,rfl,first,rest⟩
  · intro q mem
    obtain ⟨w,before,i⟩ := q
    obtain ⟨record,rfl,signer,route⟩ := (begunAmid rfl first).1 _ mem
    exact ⟨loaded,bearer,signer,route⟩
  · have created : ∀ q ∈ own₁, ActsFor settings inputs c (own₁ ++ own₂) input.tokenHash q := by
      intro q mem
      obtain ⟨w,before,i⟩ := q
      obtain ⟨record,rfl,signer,route⟩ := (begunAmid rfl first).1 _ mem
      exact ⟨loaded,bearer,signer,route⟩
    have rest : ∀ q ∈ own₂, ActsFor settings inputs c (own₁ ++ own₂) input.tokenHash q := by
      split at rest
      · obtain ⟨rfl,-⟩ := amidLift rest
        exact List.forall_mem_nil _
      · rename_i recordId
        have found : Begun settings c (own₁ ++ own₂) loaded.signer.id recordId :=
          ((begunAmid rfl first).2 recordId rfl).since toBegin (fun p mem => List.mem_append_left _ mem)
        refine committedActs ?_ bearer found rest
        exact fun _ _ => rfl
    intro q mem
    exact (List.mem_append.mp mem).elim (created q) (rest q)

theorem writesAnswer {α β : Type} {g : Store → Input → α} {f : α → β} {allowed : Write → Prop} :
    Program.Writes allowed (Fallible.get g >>= fun value => pure (f value) : DeskCase β) := fun _ _ => trivial

theorem exchangesOnly (tokenHash : Id) {value : Except AppError Unit}
    (run : Amid (desk settings) anyScope inputs c (onRows (exchangeSigningToken settings.desk.rows tokenHash none)) own value c') :
    ∀ q ∈ own, Exchanges settings inputs c tokenHash q := by
  refine bearerAmid run (fun q => expiresExchanges) fun loaded c₁ bearer later run q mem => ?_
  have writes : ∀ now (tokens : Id × Id), Program.Writes (fun w => ∃ u : ExchangeUnit, w = .exchange u ∧ u.loaded = loaded)
      (perform (.exchange ⟨loaded,tokens.1,tokens.2,now⟩) : UseCase Unit) := fun _ _ => writesPerform ⟨_,rfl,rfl⟩
  have wrote := rowsAmid (writesThen writesGet fun now => writesThen writesGet fun tokens => writes now tokens) run q mem
  obtain ⟨w,before,i⟩ := q
  obtain ⟨v,rfl,u,rfl,rfl⟩ := wrote
  exact bearer

theorem queried {β : Type} {tokenHash : Id} {f : LoadedSignerSession → DeskCase β} {value : Except AppError β}
    {P : Performed Write Store Input → Prop}
    (run : Amid (desk settings) anyScope inputs c (loadForQuery settings.desk tokenHash none >>= f : DeskCase β) own value c')
    (expires : ∀ q, Expires settings inputs c tokenHash q → P q)
    (rest : ∀ loaded c₁, Amid (desk settings) anyScope inputs c₁ (f loaded) own value c' → ∀ q ∈ own, P q) :
    ∀ q ∈ own, P q := by
  have loads : ∀ {own : List (Performed Write Store Input)} {value : Except AppError LoadedSignerSession} {c' : Running},
      Amid (desk settings) anyScope inputs c (loadForQuery settings.desk tokenHash none) own value c' →
      (∀ q ∈ own, P q) ∧ ∀ loaded, value = .ok loaded → own = [] := by
    intro own value c' run
    rcases amidThen run with ⟨_,rfl,first⟩ | ⟨loaded,c₁,own₁,own₂,rfl,first,second⟩
    · have marks := (loadAmid first).1
      exact ⟨fun q mem => expires q (marks q mem),fun _ same => by cases same⟩
    · obtain ⟨-,rfl⟩ := (loadAmid first).2 loaded rfl
      rcases amidLifted second with ⟨none,-⟩ | ⟨_,-,rest⟩
      · rw [none]
        exact ⟨List.forall_mem_nil _,fun _ _ => rfl⟩
      · obtain ⟨none,-⟩ := amidLift rest
        rw [none]
        exact ⟨List.forall_mem_nil _,fun _ _ => rfl⟩
  rcases amidThen run with ⟨_,rfl,first⟩ | ⟨loaded,c₁,own₁,own₂,rfl,first,second⟩
  · exact (loads first).1
  · obtain rfl := (loads first).2 loaded rfl
    exact rest loaded c₁ second

theorem queriedOnly {β : Type} {tokenHash : Id} {f : LoadedSignerSession → DeskCase β} {value : Except AppError β}
    (reads : ∀ loaded, Program.Writes (fun _ => False) (f loaded))
    (run : Amid (desk settings) anyScope inputs c (loadForQuery settings.desk tokenHash none >>= f : DeskCase β) own value c') :
    ∀ q ∈ own, Expires settings inputs c tokenHash q := by
  refine queried run (fun q h => h) fun loaded c₁ run => ?_
  rw [(amidReads (reads loaded) run).1]
  exact List.forall_mem_nil _

theorem actsPreview (tokenHash : Id) {value : Except AppError PreviewView}
    (run : Amid (desk settings) anyScope inputs c (issueSignerPreview settings.desk tokenHash none) own value c') :
    ∀ q ∈ own, ActsFor settings inputs c own tokenHash q := by
  refine queried run (fun q => expiresActs) fun loaded c₁ run q mem => ActsIn.acts ?_
  refine amidWrites (writesThen writesLift fun revisionId => writesThen writesFind fun revision => ?_) run q mem
  refine writesThen writesGet fun now => writesThen writesGet fun token => writesThen writesGet fun id => ?_
  exact writesThen (writesPerform trivial) fun _ => trivial

/-- What a request has shown when it is let through to a handler that writes: an allowed origin,
and the CSRF token of an exchanged session whose token it carries. -/
structure Authorized (settings : RouteSettings) (head : SignerHead) (token : Text) (d : Store) : Prop where
  origin : originIsAllowed settings.browser head.origin head.referer = true
  carried : requireSignerToken settings head = .ok token
  session : ∃ s ∈ d.rows.sessions, s.tokenHash = hashToken settings token ∧ s.consumedAt.isSome = true ∧
    (∀ other ∈ d.rows.sessions, other.tokenHash = hashToken settings token → other = s) ∧
    ∃ csrf, head.csrfHeader = some csrf ∧ head.csrfCookie = some csrf ∧ trim csrf ≠ [] ∧
      s.csrfTokenHash = some (settings.browser.hash csrf)

variable {head : SignerHead}

theorem csrfAmid (sound : (deskOutline settings).Sound c) (unsafe_ : isCsrfSafeMethod head.method = false) {token : Text}
    (run : Amid (desk settings) anyScope inputs c (requireSignerCsrf settings head token) own (.ok ()) c') :
    ∃ s ∈ c'.store.rows.sessions, s.tokenHash = hashToken settings token ∧ s.consumedAt.isSome = true ∧
      (∀ other ∈ c'.store.rows.sessions, other.tokenHash = hashToken settings token → other = s) ∧
      ∃ csrf, head.csrfHeader = some csrf ∧ head.csrfCookie = some csrf ∧ trim csrf ≠ [] ∧
        s.csrfTokenHash = some (settings.browser.hash csrf) := by
  unfold requireSignerCsrf at run
  rw [unsafe_] at run
  obtain ⟨c₁,i,-,later,run⟩ := amidThenGet run
  obtain ⟨expected,found,run⟩ := amidThenLift run
  obtain ⟨-,rfl,asserted⟩ := amidLift run
  obtain ⟨sound₁,-⟩ := deskLater sound later
  have found : (SigningSessions.findByTokenHash (hashToken settings token) c'.store.rows).bind
    SigningSession.csrfTokenHash =
      some expected := by
    cases secret : (SigningSessions.findByTokenHash (hashToken settings token) c'.store.rows).bind
      SigningSession.csrfTokenHash with
    | none => rw [secret] at found; cases found
    | some other => rw [secret] at found; cases found; rfl
  obtain ⟨s,row,secret⟩ := Option.bind_eq_some_iff.mp found
  have mem := List.mem_of_find?_eq_some row
  have named : s.tokenHash = hashToken settings token := by simpa using List.find?_some row
  have kept := sound₁.inv.1.2
  obtain ⟨csrf,header,cookie,solid,hashed⟩ := assertedCsrf asserted.symm
  refine ⟨s,mem,named,kept.keyed s mem (by rw [secret]; rfl),fun other listed same => ?_,csrf,header,cookie,solid,?_⟩
  · exact List.inj_on_of_nodup_map kept.sound.tokens listed mem (same.trans named.symm)
  · rw [secret,hashed]

theorem authorizedBy (sound : (deskOutline settings).Sound c) (unsafe_ : isCsrfSafeMethod head.method = false)
    {token : Text}
    (run : Amid (desk settings) anyScope inputs c (requireSigner settings head) own (.ok token) c') :
    Authorized settings head token c'.store := by
  obtain ⟨_,origin,run⟩ := amidThenLift run
  obtain ⟨shown,carried,run⟩ := amidThenLift run
  rcases amidThen run with ⟨_,same,-⟩ | ⟨_,c₁,own₁,own₂,rfl,first,rest⟩
  · cases same
  obtain ⟨-,rfl,same⟩ := amidLift rest
  cases same
  exact ⟨checkOk.mp origin,carried,csrfAmid sound unsafe_ first⟩

theorem postAmid {α : Type} {parsed : DeskCase α} {handler : Id → α → DeskCase SignerAnswer}
    (sound : (deskOutline settings).Sound c) (unsafe_ : isCsrfSafeMethod head.method = false)
    (reads : Program.Writes (fun _ => False) parsed)
    (acts : ∀ tokenHash body c₁ value, Amid (desk settings) anyScope inputs c₁ (handler tokenHash body) own value c' →
      ∀ q ∈ own, ActsFor settings inputs c₁ own tokenHash q)
    {value : Except AppError SignerAnswer}
    (run : Amid (desk settings) anyScope inputs c (postRoute settings head parsed handler) own value c') :
    own = [] ∨ ∃ token c₁, Run (desk settings) anyScope c c₁ ∧ Authorized settings head token c₁.store ∧
      ∀ q ∈ own, ActsFor settings inputs c own (hashToken settings token) q := by
  rcases amidThenReads (readsSigner head) run with ⟨none,-,-⟩ | ⟨token,c₁,first,later,rest⟩
  · exact .inl none
  refine .inr ⟨token,c₁,later,authorizedBy sound unsafe_ first,?_⟩
  rcases amidThenReads reads rest with ⟨rfl,-,-⟩ | ⟨body,c₂,-,parsed,handled⟩
  · exact List.forall_mem_nil _
  · exact fun q mem => (acts _ body c₂ value handled q mem).since (later.trans parsed) (fun p h => h)

theorem exchangeAmid {body : Option (Option Text)} {value : Except AppError SignerAnswer}
    (run : Amid (desk settings) anyScope inputs c (exchangeRoute settings head body) own value c') :
    own = [] ∨ ∃ bodyToken token, body = some bodyToken ∧
      originIsAllowed settings.browser head.origin head.referer = true ∧
      extractExchangeToken settings bodyToken head.authorization = .ok token ∧
      ∀ q ∈ own, Exchanges settings inputs c (hashToken settings token) q := by
  rcases amidLifted run with ⟨none,-⟩ | ⟨_,origin,run⟩
  · exact .inl none
  rcases amidLifted run with ⟨none,-⟩ | ⟨bodyToken,parsed,run⟩
  · exact .inl none
  rcases amidLifted run with ⟨none,-⟩ | ⟨token,extracted,run⟩
  · exact .inl none
  have given : body = some bodyToken := by
    cases body with
    | none => cases parsed
    | some other => cases parsed; rfl
  obtain ⟨result,run,-⟩ := amidAnswer run
  exact .inr ⟨bodyToken,token,given,checkOk.mp origin,extracted,exchangesOnly _ run⟩

end

/-- Where the writes of a signing route come from. -/
inductive SignerWrites (settings : RouteSettings) (inputs : Input → Prop) (c : Running) (head : SignerHead)
    (route : SigningRoute) (own : List (Performed Write Store Input)) : Prop where
  | nothing (silent : own = []) : SignerWrites settings inputs c head route own
  | expiring (token : Text) (get : route.method = .get) (carried : requireSignerToken settings head = .ok token)
      (only : ∀ q ∈ own, Expires settings inputs c (hashToken settings token) q) : SignerWrites settings inputs c head route own
  | acting (token : Text) (c₁ : Running) (later : Run (desk settings) anyScope c c₁) (post : route.method = .post)
      (shown : Authorized settings head token c₁.store)
      (acts : ∀ q ∈ own, ActsFor settings inputs c own (hashToken settings token) q) :
      SignerWrites settings inputs c head route own
  | exchanging (bodyToken : Option Text) (token : Text) (asked : route = .exchange (some bodyToken))
      (origin : originIsAllowed settings.browser head.origin head.referer = true)
      (extracted : extractExchangeToken settings bodyToken head.authorization = .ok token)
      (acts : ∀ q ∈ own, Exchanges settings inputs c (hashToken settings token) q) :
      SignerWrites settings inputs c head route own

/-- Whatever runs around it, a signing request writes only what it has shown it may. A GET marks
the session of its token once the clock it has read is at the expiry; the exchange, from an
allowed origin, exchanges the session of an invitation; a POST from an allowed origin, with the
token of an exchanged session and the CSRF token of that session, acts for that token alone. -/
def SignerWritesAuthorized (settings : RouteSettings) : Prop :=
  ∀ draft c, Run (desk settings) anyScope (drafted draft) c → ∀ inputs head route own value c',
    (desk settings).admits c.store (.signing head route) = true →
    Amid (desk settings) anyScope inputs c ((desk settings).start (.signing head route)) own value c' →
    SignerWrites settings inputs c head route own

section

variable {settings : RouteSettings} {inputs : Input → Prop} {c₀ c c' : Running} {own : List (Performed Write Store Input)}
  {head : SignerHead} {route : SigningRoute}

theorem queryAmid {query : Id → DeskCase SignerAnswer} {value : Except AppError SignerAnswer}
    (before : Run (desk settings) anyScope c₀ c) (get : route.method = .get)
    (run : Amid (desk settings) anyScope inputs c (queryRoute settings head query) own value c')
    (expires : ∀ tokenHash, Amid (desk settings) anyScope inputs c (query tokenHash) own value c' →
      ∀ q ∈ own, Expires settings inputs c tokenHash q) : SignerWrites settings inputs c₀ head route own := by
  rcases amidLifted run with ⟨none,-⟩ | ⟨token,carried,run⟩
  · exact .nothing none
  · exact .expiring token get carried fun q mem => (expires _ run q mem).since before

theorem postWrites {α : Type} {parsed : DeskCase α} {handler : Id → α → DeskCase SignerAnswer}
    (before : Run (desk settings) anyScope c₀ c) (sound : (deskOutline settings).Sound c)
    (post : route.method = .post) (method : head.method = route.method) {value : Except AppError SignerAnswer}
    (run : Amid (desk settings) anyScope inputs c (postRoute settings head parsed handler) own value c')
    (reads : Program.Writes (fun _ => False) parsed)
    (acts : ∀ tokenHash body c₁ value, Amid (desk settings) anyScope inputs c₁ (handler tokenHash body) own value c' →
      ∀ q ∈ own, ActsFor settings inputs c₁ own tokenHash q) :
    SignerWrites settings inputs c₀ head route own := by
  have unsafe_ : isCsrfSafeMethod head.method = false := by rw [method,post]; rfl
  rcases postAmid sound unsafe_ reads acts run with none | ⟨token,c₁,later,shown,acted⟩
  · exact .nothing none
  · exact .acting token c₁ (before.trans later) post shown fun q mem => (acted q mem).since before (fun p h => h)

end

theorem postedAs {settings : RouteSettings} {head : SignerHead} {route : SigningRoute} {d : Store}
    (admitted : (desk settings).admits d (.signing head route) = true) (post : route.method = .post) :
    head.method = route.method := by
  have admitted : head.method = route.method ∨ (head.method = .head ∧ route.method = .get) := of_decide_eq_true admitted
  rcases admitted with same | ⟨-,get⟩
  · exact same
  · rw [post] at get
    cases get

theorem signerWritesAuthorized (settings : RouteSettings) : SignerWritesAuthorized settings := by
  intro draft c run inputs head route own value c' admitted amid
  have method := postedAs admitted
  obtain ⟨result,amid,-⟩ := amidAnswer amid
  rcases amidThen amid with ⟨error,-,failed⟩ | ⟨_,c₁,own₁,own₂,rfl,first,rest⟩
  · exact .nothing (amidExternal failed).1
  obtain ⟨rfl,before,-⟩ := amidExternal first
  obtain ⟨sound,-⟩ := deskLater (deskSound run) before
  rw [List.nil_append]
  cases route with
  | exchange body =>
    rcases exchangeAmid rest with none | ⟨bodyToken,token,rfl,origin,extracted,acts⟩
    · exact .nothing none
    · exact .exchanging bodyToken token rfl origin extracted fun q mem => (acts q mem).since before
  | session =>
    refine queryAmid before rfl rest fun _ run => ?_
    obtain ⟨_,run,-⟩ := amidAnswer run
    exact queriedOnly (fun _ => writesAnswer) run
  | document =>
    refine queryAmid before rfl rest fun _ run => ?_
    obtain ⟨_,run,-⟩ := amidAnswer run
    refine queriedOnly (fun loaded => ?_) run
    split
    · exact writesThen (p := pure none) trivial fun _ => trivial
    · exact writesAnswer
  | fields =>
    refine queryAmid before rfl rest fun _ run => ?_
    obtain ⟨_,run,-⟩ := amidAnswer run
    exact queriedOnly (fun _ => writesAnswer) run
  | consent =>
    refine queryAmid before rfl rest fun _ run => ?_
    obtain ⟨_,run,-⟩ := amidAnswer run
    exact queriedOnly (fun _ => writesAnswer) run
  | previews =>
    refine postWrites before sound rfl (method rfl) rest trivial fun _ _ _ _ run => ?_
    obtain ⟨_,run,-⟩ := amidAnswer run
    exact actsPreview _ run
  | viewed =>
    refine postWrites before sound rfl (method rfl) rest trivial fun _ _ _ _ run => ?_
    obtain ⟨_,run,-⟩ := amidAnswer run
    exact actsViewed _ run
  | recordConsent body =>
    refine postWrites before sound rfl (method rfl) rest writesLift fun tokenHash _ _ _ run => ?_
    obtain ⟨_,run,-⟩ := amidAnswer run
    exact actsConsent ⟨tokenHash,_,_,_,_,_⟩ run
  | decline body =>
    refine postWrites before sound rfl (method rfl) rest writesLift fun tokenHash _ _ _ run => ?_
    obtain ⟨_,run,-⟩ := amidAnswer run
    exact actsDecline ⟨tokenHash,_,_⟩ run
  | complete body =>
    refine postWrites before sound rfl (method rfl) rest writesLift fun tokenHash _ _ _ run => ?_
    obtain ⟨_,run,-⟩ := amidAnswer run
    exact actsComplete ⟨tokenHash,_,_,_,_,_,_,_⟩ run

end ESign.Desk
