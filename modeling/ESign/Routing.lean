import ESign.StateTransitions

/-! Ordered routing. The turn is decided on a roster that was read before the unit
of work. It is safe because signers only ever leave the pending state: whoever was
seen to have acted has acted when the unit commits, and that nobody below declined
is what the open session, or the version of the document, vouches for. -/
namespace ESign
open StoreProgram

/-- Whoever has acted has only signed rows below. -/
def InOrder (rows : List Signer) : Prop :=
  ∀ a ∈ rows, a.status ≠ .pending → ∀ b ∈ rows, b.routingOrder < a.routingOrder → b.status = .signed

theorem allPendingInOrder {rows : List Signer} (pending : ∀ s ∈ rows, s.status = .pending) : InOrder rows :=
  fun a mem acted => absurd (pending a mem) acted

theorem actInOrder {rows : List Signer} {row : Signer} {data : Signer → Signer} (ids : (rows.map Signer.id).Nodup)
    (order : InOrder rows) (mem : row ∈ rows) (pending : row.status = .pending)
    (kept : ∀ s, (data s).routingOrder = s.routingOrder)
    (below : ∀ b ∈ rows, b.routingOrder < row.routingOrder → b.status = .signed) : InOrder (act row.id data rows) := by
  intro a' aMem acted b' bMem less
  obtain ⟨a,aFound,⟨aId,rfl⟩ | ⟨aOther,rfl⟩⟩ := actMem aMem
  · have isRow : a = row := List.inj_on_of_nodup_map ids aFound mem aId
    subst isRow
    rw [kept] at less
    obtain ⟨b,bFound,⟨bId,rfl⟩ | ⟨-,rfl⟩⟩ := actMem bMem
    · have isRow : b = a := List.inj_on_of_nodup_map ids bFound mem bId
      rw [isRow,kept] at less
      omega
    · exact below b' bFound less
  · obtain ⟨b,bFound,⟨bId,rfl⟩ | ⟨-,rfl⟩⟩ := actMem bMem
    · -- the row that acts now was pending, so nobody above it can have acted
      have isRow : b = row := List.inj_on_of_nodup_map ids bFound mem bId
      rw [kept,isRow] at less
      have signed := order a' aFound acted row mem less
      rw [pending] at signed
      cases signed
    · exact order a' aFound acted b' bFound less

theorem mem_listByDocument {e : Envelope} {s : Signer} : s ∈ Signers.listByDocument e ↔ s ∈ e.signers :=
  List.mem_insertionSort _

theorem lowerActed {l : LoadedSignerSession} {atRoster e : Envelope} (loaded : Loaded Before l atRoster)
    (later : Before atRoster e) (turn : canSignerActNow .ordered l.signer (Signers.listByDocument atRoster) = true) :
    ∀ b ∈ e.signers, b.routingOrder < l.signer.routingOrder → b.status ≠ .pending := by
  obtain ⟨pending,below⟩ := orderedTurn turn
  have unprep := (loaded.now pending).unprep
  intro b mem less
  obtain ⟨b₀,found,moved⟩ := (later.2.signers unprep).source b mem
  have acted := below b₀ (mem_listByDocument.mpr found) (by rw [← moved.routingOrder]; exact less)
  rw [moved.acted acted]
  exact acted

theorem actorOrder {l : LoadedSignerSession} {e : Envelope} {row : Signer} (inv : Consistent e) (actor : ActorNow l e)
    (mem : row ∈ e.signers) (named : row.id = l.signer.id) : row.routingOrder = l.signer.routingOrder := by
  obtain ⟨s,found,later⟩ := actor.signer
  rw [sameSigner inv mem found (by rw [named,later.id]),later.routingOrder]

/- Nobody has declined when a pending signer completes: the decline would have
closed the session, and a session that was completed belongs to a signed signer. -/
theorem completeNotEnded {u : CompleteUnit} {i e e'} {row : Signer} (inv : Consistent e) (actor : ActorNow u.loaded e)
    (h : CompleteEffect u i e e') (mem : row ∈ e.signers) (named : row.id = u.loaded.signer.id)
    (pending : row.status = .pending) : e.ended = false := by
  cases ended : e.ended with
  | false => rfl
  | true =>
    obtain ⟨s,found,later,closed⟩ := actor.closed ended
    obtain ⟨t,tFound,tId,state⟩ := h.sessions.found
    have same : t = s := sameSession inv tFound found (by rw [tId,later.id])
    subst same
    rcases state with isOpen | completed
    · rw [closed] at isOpen; cases isOpen
    · have signed := inv.completed t found completed row mem (by rw [named,actor.named,later.signerId])
      rw [pending] at signed
      cases signed

theorem acted_cases {s : Signer} (acted : s.status ≠ .pending) : s.status = .signed ∨ s.status = .declined := by
  cases h : s.status with
  | pending => exact absurd h acted
  | signed => exact .inl rfl
  | declined => exact .inr rfl

def routingExtension : Extension (Scope.of (fun _ => True)) where
  Extra e := e.document.signingMode = .ordered → InOrder e.signers
  Also _ _ := True
  refl _ := trivial
  trans _ _ := trivial
  keep := by
    intro w i e e' inv order _ just _ _ done inv' later
    refine ⟨fun ordered => ?_,trivial⟩
    rcases done.signers with ⟨same,mode⟩ | ⟨u,rfl,h⟩ | ⟨u,rfl,h⟩ | ⟨u,rfl,h⟩
    · rw [same]
      exact order (mode ▸ ordered)
    · have prep : isPreparationState e.document.state = true := by
        rw [just.document.row h.version]; exact just.unlocked
      have prep' := (h.preparation prep (inv.unsent prep).2.2).2.1
      exact allPendingInOrder (inv'.unsent prep').1
    · obtain ⟨atRoster,source,next⟩ := just
      have actor := (source.loaded.before next).now (actorPending source.turn)
      obtain ⟨row,mem,named,-,pending⟩ := h.actor
      have mode : e.document.signingMode = .ordered := by rw [← ordered,h.document]
      have turn := source.turn
      rw [← actor.mode,mode] at turn
      rw [h.signers,← named]
      refine actInOrder inv.signerIds (order mode) mem pending (fun _ => rfl) (fun b bMem less => ?_)
      rw [actorOrder inv actor mem named] at less
      rcases acted_cases (lowerActed source.loaded next turn b bMem less) with signed | declined
      · exact signed
      · have running : e.ended = false := by
          refine inv.running ?_
          have state := h.state
          simp only [List.mem_cons,List.not_mem_nil,or_false] at state
          rcases state with s | s <;> rw [s] <;> decide
        rw [inv.declined b bMem declined] at running
        cases running
    · obtain ⟨atRoster,atFields,atConsent,source,next⟩ := just
      have whole := source.later.trans (source.toConsent.trans next)
      have actor := (source.loaded.before whole).now (actorPending source.turn)
      have mode : e.document.signingMode = .ordered := by
        rw [← ordered]
        exact (later.mode actor.unprep).symm
      rcases h.signers with ⟨same,-⟩ | ⟨acted,row,mem,named,-,pending⟩
      · rw [same]; exact order mode
      · have turn := source.turn
        rw [source.roster,← actor.mode,mode] at turn
        rw [acted,← named]
        refine actInOrder inv.signerIds (order mode) mem pending (fun _ => rfl) (fun b bMem less => ?_)
        rw [actorOrder inv actor mem named] at less
        rcases acted_cases (lowerActed source.loaded whole turn b bMem less) with signed | declined
        · exact signed
        · have running := completeNotEnded inv actor h mem named pending
          rw [inv.declined b bMem declined] at running
          cases running

theorem existsAbove (orders : List Int) : ∃ k, ∀ x ∈ orders, x < k := by
  induction orders with
  | nil => exact ⟨0,by simp⟩
  | cons order rest ih =>
    obtain ⟨k,above⟩ := ih
    refine ⟨max k (order+1),fun x mem => ?_⟩
    rcases List.mem_cons.mp mem with rfl | mem
    · omega
    · have := above x mem
      omega

/-- `1, …, n`. -/
def consecutiveOrders (n : Nat) : List Int := (List.range n).map (fun (k : Nat) => (k : Int)+1)

theorem consecutiveNodup (n : Nat) : (consecutiveOrders n).Nodup :=
  List.nodup_range.map (fun a b same => by omega)

theorem consecutivePositive {n : Nat} {order : Int} (mem : order ∈ consecutiveOrders n) : 1 ≤ order := by
  obtain ⟨k,-,rfl⟩ := List.mem_map.mp mem
  omega

theorem nonemptyIff {α : Type} {xs : List α} : 1 ≤ xs.length ↔ xs ≠ [] :=
  Nat.one_le_iff_ne_zero.trans (not_congr List.length_eq_zero_iff)

/- Orders that are distinct and contain all of `1..n` are these and no others: `n` of
them leave no room. -/
theorem orderedRoutingIff {orders : List Int} : assertSignerRouting .ordered orders = .ok () ↔
    orders ≠ [] ∧ orders.Perm (consecutiveOrders orders.length) := by
  simp only [assertSignerRouting,thenOk,checkOk,decide_eq_true_eq,List.all_eq_true,List.mem_range,nonemptyIff]
  constructor
  · rintro ⟨nonempty,-,-,covered⟩
    have subset : consecutiveOrders orders.length ⊆ orders := by
      intro order mem
      obtain ⟨k,below,rfl⟩ := List.mem_map.mp mem
      exact covered k (List.mem_range.mp below)
    have inside := List.subperm_of_subset (consecutiveNodup orders.length) subset
    exact ⟨nonempty,(inside.perm_of_length_le (by simp [consecutiveOrders])).symm⟩
  · rintro ⟨nonempty,perm⟩
    refine ⟨nonempty,fun order mem => consecutivePositive (perm.mem_iff.mp mem),?_,fun k below => ?_⟩
    · rw [(perm.nodup_iff.mpr (consecutiveNodup _)).dedup]
    · exact perm.mem_iff.mpr (List.mem_map.mpr ⟨k,List.mem_range.mpr below,rfl⟩)

theorem parallelRoutingIff {orders : List Int} : assertSignerRouting .parallel orders = .ok () ↔
    orders ≠ [] ∧ ∀ order ∈ orders, order = 1 := by
  simp only [assertSignerRouting,thenOk,checkOk,decide_eq_true_eq,List.all_eq_true,nonemptyIff]
  constructor
  · rintro ⟨nonempty,-,one⟩
    exact ⟨nonempty,one⟩
  · rintro ⟨nonempty,one⟩
    exact ⟨nonempty,fun order mem => (one order mem).ge,one⟩

theorem orderedOrders {orders} (ok : assertSignerRouting .ordered orders = .ok ()) : orders.Nodup :=
  (orderedRoutingIff.mp ok).2.nodup_iff.mpr (consecutiveNodup _)

theorem minimumOrderNone {orders : List Int} : minimumOrder orders = none ↔ orders = [] := by
  cases orders <;> simp [minimumOrder]

theorem minimumOrderIff {orders : List Int} {least : Int} :
    minimumOrder orders = some least ↔ least ∈ orders ∧ ∀ order ∈ orders, least ≤ order := by
  constructor
  · exact fun found => ⟨minimumOrderMem found,minimumOrderLe found⟩
  · rintro ⟨mem,below⟩
    cases found : minimumOrder orders with
    | none => rw [minimumOrderNone.mp found] at mem; cases mem
    | some other =>
      have up := minimumOrderLe found least mem
      have down := below other (minimumOrderMem found)
      rw [le_antisymm up down]

theorem orderedTurnIff {actor : Signer} {signers : List Signer} (mem : actor ∈ signers) :
    canSignerActNow .ordered actor signers = true ↔ actor.status = .pending ∧
      ∀ other ∈ signers, other.status = .pending → actor.routingOrder ≤ other.routingOrder := by
  unfold canSignerActNow
  split
  · rename_i acted
    exact ⟨fun turn => (nomatch turn),fun turn => absurd turn.1 acted⟩
  · rename_i pending
    rw [not_not] at pending
    simp only [decide_eq_true_eq,minimumOrderIff,List.mem_map,List.mem_filter]
    constructor
    · exact fun ⟨_,least⟩ => ⟨pending,fun other found waits => least _ ⟨other,⟨found,waits⟩,rfl⟩⟩
    · rintro ⟨-,least⟩
      refine ⟨⟨actor,⟨mem,pending⟩,rfl⟩,?_⟩
      rintro order ⟨other,⟨found,waits⟩,rfl⟩
      exact least other found waits

theorem pendingLeast {signers : List Signer} (some_ : ∃ s ∈ signers, s.status = .pending) :
    ∃ actor ∈ signers, actor.status = .pending ∧
      ∀ other ∈ signers, other.status = .pending → actor.routingOrder ≤ other.routingOrder := by
  obtain ⟨s,mem,pending⟩ := some_
  have waits : s.routingOrder ∈ (signers.filter (fun t => t.status = .pending)).map Signer.routingOrder :=
    List.mem_map_of_mem (List.mem_filter.mpr ⟨mem,decide_eq_true pending⟩)
  cases found : minimumOrder ((signers.filter (fun t => t.status = .pending)).map Signer.routingOrder) with
  | none => rw [minimumOrderNone.mp found] at waits; cases waits
  | some least =>
    obtain ⟨actor,actorMem,rfl⟩ := List.mem_map.mp (minimumOrderMem found)
    obtain ⟨actorMem,actorPending⟩ := List.mem_filter.mp actorMem
    refine ⟨actor,actorMem,of_decide_eq_true actorPending,fun other otherMem otherPending => ?_⟩
    exact minimumOrderLe found _ (List.mem_map_of_mem (List.mem_filter.mpr ⟨otherMem,decide_eq_true otherPending⟩))

/-- Routing is accepted exactly when it is `1..n` in some order, or all ones, and an
accepted roster gives the turn to one signer, the pending one of least order. -/
theorem routingExact (signers : List Signer) :
    (assertSignerRouting .ordered (signers.map Signer.routingOrder) = .ok () ↔
      signers ≠ [] ∧ (signers.map Signer.routingOrder).Perm (consecutiveOrders signers.length)) ∧
    (assertSignerRouting .parallel (signers.map Signer.routingOrder) = .ok () ↔
      signers ≠ [] ∧ ∀ signer ∈ signers, signer.routingOrder = 1) ∧
    (assertSignerRouting .ordered (signers.map Signer.routingOrder) = .ok () →
      ((∃ signer ∈ signers, signer.status = .pending) → ∃ actor ∈ signers, actor.status = .pending ∧
        (∀ other ∈ signers, other.status = .pending → actor.routingOrder ≤ other.routingOrder) ∧
        signers.filter (fun signer => canSignerActNow .ordered signer signers) = [actor]) ∧
      ((∀ signer ∈ signers, signer.status ≠ .pending) →
        signers.filter (fun signer => canSignerActNow .ordered signer signers) = [])) ∧
    ∀ actor : Signer, canSignerActNow .parallel actor signers = true ↔ actor.status = .pending := by
  refine ⟨?_,?_,fun routed => ⟨fun some_ => ?_,fun none_ => ?_⟩,fun actor => ?_⟩
  · rw [orderedRoutingIff,List.length_map,ne_eq,List.map_eq_nil_iff]
  · rw [parallelRoutingIff,List.forall_mem_map,ne_eq,List.map_eq_nil_iff]
  · obtain ⟨actor,mem,pending,least⟩ := pendingLeast some_
    have orders := orderedOrders routed
    refine ⟨actor,mem,pending,least,List.perm_singleton.mp ?_⟩
    refine (List.perm_ext_iff_of_nodup (orders.of_map.filter _) (List.nodup_singleton actor)).mpr fun signer => ?_
    rw [List.mem_filter,List.mem_singleton]
    constructor
    · rintro ⟨found,turn⟩
      obtain ⟨waits,lowest⟩ := (orderedTurnIff found).mp turn
      exact List.inj_on_of_nodup_map orders found mem
        (le_antisymm (lowest actor mem pending) (least signer found waits))
    · rintro rfl
      exact ⟨mem,(orderedTurnIff mem).mpr ⟨pending,least⟩⟩
  · refine List.filter_eq_nil_iff.mpr fun signer mem turn => ?_
    exact none_ signer mem ((orderedTurnIff mem).mp turn).1
  · unfold canSignerActNow
    simp

theorem orderedPrefix {rows : List Signer} (order : InOrder rows) (orders : (rows.map Signer.routingOrder).Nodup) :
    ∃ k : Int, (∀ s ∈ rows, s.status = .signed ↔ s.routingOrder < k) ∧
      ∀ s ∈ rows, s.status = .declined → s.routingOrder = k := by
  let open_ := (rows.filter (fun s => s.status ≠ .signed)).map Signer.routingOrder
  cases least : minimumOrder open_ with
  | none =>
    have none_ : open_ = [] := minimumOrderNone.mp least
    have signed : ∀ s ∈ rows, s.status = .signed := by
      intro s mem
      by_contra other
      have : s.routingOrder ∈ open_ := List.mem_map_of_mem (List.mem_filter.mpr ⟨mem,by simpa using other⟩)
      rw [none_] at this
      cases this
    obtain ⟨k,above⟩ := existsAbove (rows.map Signer.routingOrder)
    refine ⟨k,fun s mem => ⟨fun _ => above _ (List.mem_map_of_mem mem),fun _ => signed s mem⟩,fun s mem declined => ?_⟩
    rw [signed s mem] at declined
    cases declined
  | some k =>
    obtain ⟨m,mMem,rfl⟩ := List.mem_map.mp (minimumOrderMem least)
    obtain ⟨mMem,mOpen⟩ := List.mem_filter.mp mMem
    have mOpen : m.status ≠ .signed := by simpa using mOpen
    have lowest : ∀ s ∈ rows, s.status ≠ .signed → m.routingOrder ≤ s.routingOrder := fun s mem other =>
      minimumOrderLe least _ (List.mem_map_of_mem (List.mem_filter.mpr ⟨mem,by simpa using other⟩))
    refine ⟨m.routingOrder,fun s mem => ⟨fun signed => ?_,fun less => ?_⟩,fun s mem declined => ?_⟩
    · rcases lt_trichotomy s.routingOrder m.routingOrder with less | same | more
      · exact less
      · rw [List.inj_on_of_nodup_map orders mem mMem same] at signed
        exact absurd signed mOpen
      · exact absurd (order s mem (by rw [signed]; decide) m mMem more) mOpen
    · by_contra other
      have := lowest s mem other
      omega
    · have atLeast := lowest s mem (by rw [declined]; decide)
      by_contra different
      exact mOpen (order s mem (by rw [declined]; decide) m mMem (by omega))

/-- In every store that any interleaving of requests and jobs reaches from a fresh
draft, an ordered roster has been signed exactly below some order, and the only
signer who may have declined stands at that order. -/
theorem orderedRouting {settings : Settings} {draft : NewDraft} {c}
    (reached : Run (esign settings) (Scope.of (fun _ => True)) (initial (createDraftDocument draft)) c)
    (ordered : c.store.document.signingMode = .ordered)
    (routed : assertSignerRouting .ordered (c.store.signers.map Signer.routingOrder) = .ok ()) :
    ∃ k : Int, (∀ s ∈ c.store.signers, s.status = .signed ↔ s.routingOrder < k) ∧
      (∀ s ∈ c.store.signers, s.status = .declined → s.routingOrder = k) ∧
      ∀ s ∈ c.store.signers, ∀ t ∈ c.store.signers, s.status = .declined → t.status = .declined → s = t := by
  have sound := routingExtension.run ⟨draftConsistent draft,fun _ => allPendingInOrder (by simp [createDraftDocument])⟩ reached
  have orders := orderedOrders routed
  obtain ⟨k,signed,declined⟩ := orderedPrefix (sound.inv.2 ordered) orders
  refine ⟨k,signed,declined,fun s sMem t tMem sDeclined tDeclined => ?_⟩
  exact List.inj_on_of_nodup_map orders sMem tMem ((declined s sMem sDeclined).trans (declined t tMem tDeclined).symm)

set_option maxRecDepth 100000 in
theorem secondDeclines : ∃ c, Run (esign ThreeSigners.settings) (Scope.of (fun _ => True)) ThreeSigners.start c ∧
    c.store.signers.map Signer.status = [.signed,.declined,.pending] ∧
    ∃ k : Int, (∀ s ∈ c.store.signers, s.status = .signed ↔ s.routingOrder < k) ∧
      (∀ s ∈ c.store.signers, s.status = .declined → s.routingOrder = k) ∧
      ∀ s ∈ c.store.signers, ∀ t ∈ c.store.signers, s.status = .declined → t.status = .declined → s = t := by
  have evaluated : ((esign ThreeSigners.settings).applyAll (fun _ _ => true) ThreeSigners.start
      (ThreeSigners.consented .ordered ++ ThreeSigners.served 11 12 15 (ThreeSigners.complete 650 400 61) ++
        ThreeSigners.served 12 13 7 (.declineToSign ⟨750,none,none⟩))).map (fun c =>
      (c.store.document.signingMode,c.store.signers.map Signer.status,c.store.signers.map Signer.routingOrder)) =
      some (.ordered,[.signed,.declined,.pending],[1,2,3]) := by decide +kernel
  obtain ⟨c,reached,rows⟩ := Option.map_eq_some_iff.mp evaluated
  simp only [Prod.mk.injEq] at rows
  have run : Run (esign ThreeSigners.settings) (Scope.of (fun _ => True)) ThreeSigners.start c :=
    runOfActions (fun _ _ => trivial) (fun _ _ _ => trivial) reached
  refine ⟨c,run,rows.2.1,orderedRouting run rows.1 ?_⟩
  rw [rows.2.2]
  decide

end ESign
