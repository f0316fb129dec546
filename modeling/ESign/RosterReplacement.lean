import ESign.StateTransitions

/-! Replacing the signers of a document: the roster that was validated, and the roster
that the upserts leave. -/
namespace ESign
open StoreProgram StoreProgram.Fallible

structure RosterEntry where
  routingOrder : Int
  email : Text
  displayName : Text
  deriving DecidableEq, Repr

def Signer.entry (signer : Signer) : RosterEntry := ⟨signer.routingOrder,signer.email,signer.displayName⟩

def SignerRow.entry (settings : Settings) (row : SignerRow) : RosterEntry :=
  ⟨row.routingOrder,settings.toLowerCase (trim row.email),trim row.displayName⟩

/-- One signer for each row of the request, routed as the stored mode asks. -/
structure RosterStored (settings : Settings) (input : ReplaceSignersInput) (e : Envelope) : Prop where
  rows : (e.signers.map Signer.entry).Perm (input.signers.map (SignerRow.entry settings))
  routing : assertSignerRouting e.document.signingMode ((Signers.listByDocument e).map Signer.routingOrder) = .ok ()

def ReplaceSignersInput.distinctRows (input : ReplaceSignersInput) : Prop :=
  (input.signers.filterMap SignerRow.signerId).Nodup

structure FreshIds (rows : List SignerRow) (i : Input) : Prop where
  distinct : Function.Injective i.ids
  unnamed : ∀ row ∈ rows, ∀ id, row.signerId = some id → ∀ n, i.ids n ≠ id

/-! The upserts. -/

def Signer.keyed (signer : Signer) : Id × RosterEntry := (signer.id,signer.entry)

theorem upsertKeyed {rows : List Signer} {signer : Signer} {p : Id × RosterEntry} :
    p ∈ (Signers.upsert rows signer).map Signer.keyed ↔
      p = signer.keyed ∨ p ∈ rows.map Signer.keyed ∧ p.1 ≠ signer.id := by
  unfold Signers.upsert
  split
  · next found =>
    obtain ⟨old,mem,same⟩ := List.any_eq_true.mp found
    simp only [List.map_map,List.mem_map,Function.comp]
    constructor
    · rintro ⟨row,mem,rfl⟩
      split
      · next same => exact .inl (Prod.ext same rfl)
      · next other => exact .inr ⟨⟨row,mem,rfl⟩,other⟩
    · rintro (rfl | ⟨⟨row,mem,rfl⟩,other⟩)
      · have same := of_decide_eq_true same
        exact ⟨old,mem,by rw [if_pos same]; exact Prod.ext same rfl⟩
      · exact ⟨row,mem,by rw [if_neg (show row.id ≠ signer.id from other)]⟩
  · next absent =>
    rw [Bool.not_eq_true,List.any_eq_false] at absent
    simp only [List.map_append,List.mem_append,List.map_cons,List.map_nil,List.mem_singleton,or_comm]
    refine or_congr_left ⟨fun mem => ⟨mem,?_⟩,And.left⟩
    obtain ⟨row,found,rfl⟩ := List.mem_map.mp mem
    exact fun same => absent row found (decide_eq_true same)

theorem upsertAllKeyed {list rows : List Signer} (distinct : (list.map Signer.id).Nodup) {p : Id × RosterEntry} :
    p ∈ (Signers.upsertAll rows list).1.map Signer.keyed ↔
      p ∈ list.map Signer.keyed ∨ p ∈ rows.map Signer.keyed ∧ p.1 ∉ list.map Signer.id := by
  induction list generalizing rows with
  | nil => simp [Signers.upsertAll]
  | cons signer rest ih =>
    obtain ⟨fresh,distinct⟩ := List.nodup_cons.mp distinct
    simp only [Signers.upsertAll,ih distinct,upsertKeyed,List.map_cons,List.mem_cons,not_or]
    constructor
    · rintro (later | ⟨rfl | ⟨old,other⟩,untouched⟩)
      · exact .inl (.inr later)
      · exact .inl (.inl rfl)
      · exact .inr ⟨old,other,untouched⟩
    · rintro ((rfl | later) | ⟨old,other,untouched⟩)
      · exact .inr ⟨.inl rfl,fresh⟩
      · exact .inl later
      · exact .inr ⟨.inr ⟨old,other⟩,untouched⟩

theorem upsertAllSource {list rows : List Signer} {p : Id × RosterEntry}
    (mem : p ∈ (Signers.upsertAll rows list).1.map Signer.keyed) :
    p ∈ list.map Signer.keyed ∨ p ∈ rows.map Signer.keyed := by
  induction list generalizing rows with
  | nil => exact .inr mem
  | cons signer rest ih =>
    rcases ih mem with later | earlier
    · exact .inl (List.mem_cons_of_mem _ later)
    · rcases upsertKeyed.mp earlier with rfl | ⟨old,-⟩
      · exact .inl List.mem_cons_self
      · exact .inr old

theorem upsertAllIds {list rows : List Signer} (ids : (rows.map Signer.id).Nodup) :
    ((Signers.upsertAll rows list).1.map Signer.id).Nodup := by
  induction list generalizing rows with
  | nil => exact ids
  | cons signer rest ih => exact ih (upsertIds ids)

theorem keyedIds {signers : List Signer} : (signers.map Signer.keyed).map Prod.fst = signers.map Signer.id := by
  rw [List.map_map]
  rfl

theorem keyedEntries {signers : List Signer} : (signers.map Signer.keyed).map Prod.snd = signers.map Signer.entry := by
  rw [List.map_map]
  rfl

theorem replacedIff {rows list : List Signer} (ids : (rows.map Signer.id).Nodup)
    (named : ∀ row ∈ rows, row.id ∈ list.map Signer.id) :
    ((Signers.upsertAll rows list).1.map Signer.entry).Perm (list.map Signer.entry) ↔ (list.map Signer.id).Nodup := by
  have stored : ((Signers.upsertAll rows list).1.map Signer.id).Nodup := upsertAllIds ids
  constructor
  · intro same
    have within : (Signers.upsertAll rows list).1.map Signer.id ⊆ list.map Signer.id := by
      intro id mem
      obtain ⟨row,kept,rfl⟩ := List.mem_map.mp mem
      rcases upsertAllSource (List.mem_map_of_mem (f := Signer.keyed) kept) with found | found
      · obtain ⟨signer,mem,same⟩ := List.mem_map.mp found
        exact List.mem_map.mpr ⟨signer,mem,congrArg Prod.fst same⟩
      · obtain ⟨old,mem,same⟩ := List.mem_map.mp found
        have id : old.id = row.id := congrArg Prod.fst same
        exact id ▸ named old mem
    have length := same.length_eq
    rw [List.length_map,List.length_map] at length
    have perm := (List.subperm_of_subset stored within).perm_of_length_le (by simp [length])
    exact perm.nodup stored
  · intro distinct
    have keyed : ((Signers.upsertAll rows list).1.map Signer.keyed).Perm (list.map Signer.keyed) := by
      refine (List.perm_ext_iff_of_nodup (.of_map Prod.fst ?_) (.of_map Prod.fst ?_)).mpr fun p => ?_
      · rw [keyedIds]
        exact stored
      · rw [keyedIds]
        exact distinct
      · rw [upsertAllKeyed distinct,or_iff_left]
        rintro ⟨old,gone⟩
        obtain ⟨row,mem,rfl⟩ := List.mem_map.mp old
        exact gone (named row mem)
    have entries := keyed.map Prod.snd
    rwa [keyedEntries,keyedEntries] at entries

/-! The request. -/

theorem mapMMap {α β γ : Type} {f : α → Except AppError β} {g : β → γ} {h : α → γ}
    (each : ∀ x y, f x = .ok y → g y = h x) {xs : List α} {ys : List β} (ok : xs.mapM f = .ok ys) :
    ys.map g = xs.map h := by
  induction xs generalizing ys with
  | nil =>
    cases ok
    rfl
  | cons x rest ih =>
    rw [List.mapM_cons] at ok
    obtain ⟨y,first,ok⟩ := bindOk.mp ok
    obtain ⟨others,second,ok⟩ := bindOk.mp ok
    cases ok
    rw [List.map_cons,List.map_cons,each x y first,ih second]

theorem toSignerOk {settings existingIds fresh row signer} (ok : toSigner settings existingIds fresh row = .ok signer) :
    signer.entry = row.entry settings ∧ signer.id = row.signerId.getD fresh := by
  obtain ⟨_,_,ok⟩ := bindOk.mp ok
  obtain ⟨_,_,ok⟩ := bindOk.mp ok
  obtain ⟨_,_,ok⟩ := bindOk.mp ok
  cases ok
  exact ⟨rfl,rfl⟩

theorem signersDrawn {settings existingIds i rows signers} (ok : toSigners settings existingIds i rows = .ok signers) :
    signers.map Signer.entry = rows.map (SignerRow.entry settings) ∧
      signers.map Signer.id = rows.zipIdx.map (fun row => row.1.signerId.getD (i.ids row.2)) := by
  refine ⟨?_,mapMMap (fun row signer built => (toSignerOk built).2) ok⟩
  have entries := mapMMap (g := Signer.entry) (h := fun row => row.1.entry settings)
    (fun row signer built => (toSignerOk built).1) ok
  rw [entries]
  conv_rhs => rw [← List.zipIdx_map_fst 0 rows,List.map_map]
  rfl

theorem FreshIds.distinctIff {rows : List SignerRow} {i : Input} (fresh : FreshIds rows i) (k : Nat) :
    ((rows.zipIdx k).map (fun row => row.1.signerId.getD (i.ids row.2))).Nodup ↔
      (rows.filterMap SignerRow.signerId).Nodup := by
  induction rows generalizing k with
  | nil => simp
  | cons row rest ih =>
    have others : FreshIds rest i := ⟨fresh.distinct,fun row mem => fresh.unnamed row (List.mem_cons_of_mem _ mem)⟩
    rw [List.zipIdx_cons,List.map_cons,List.nodup_cons,ih others]
    cases named : row.signerId with
    | none =>
      rw [List.filterMap_cons_none named,and_iff_right]
      intro mem
      obtain ⟨⟨other,m⟩,found,same⟩ := List.mem_map.mp mem
      obtain ⟨after,-,-⟩ := List.mem_zipIdx found
      cases source : other.signerId with
      | none =>
        rw [source] at same
        have at_ : m = k := fresh.distinct same
        omega
      | some id =>
        rw [source] at same
        exact others.unnamed other (List.fst_mem_of_mem_zipIdx found) id source k same.symm
    | some id =>
      rw [List.filterMap_cons_some named,List.nodup_cons]
      refine and_congr_left fun _ => not_congr ⟨fun mem => ?_,fun mem => ?_⟩
      · obtain ⟨⟨other,m⟩,found,same⟩ := List.mem_map.mp mem
        cases source : other.signerId with
        | none =>
          rw [source] at same
          exact absurd same (fresh.unnamed row List.mem_cons_self id named m)
        | some id' =>
          rw [source] at same
          exact List.mem_filterMap.mpr ⟨other,List.fst_mem_of_mem_zipIdx found,by rw [source]; exact congrArg some same⟩
      · obtain ⟨other,found,source⟩ := List.mem_filterMap.mp mem
        rw [← List.zipIdx_map_fst (k+1) rest] at found
        obtain ⟨place,numbered,rfl⟩ := List.mem_map.mp found
        exact List.mem_map.mpr ⟨place,numbered,by rw [source]; rfl⟩

theorem routingPerm {mode : SigningMode} {orders orders' : List Int} (same : orders.Perm orders') :
    assertSignerRouting mode orders = assertSignerRouting mode orders' := by
  have dedup := (same.dedup).length_eq
  unfold assertSignerRouting
  simp only [same.length_eq,same.all_eq,dedup,same.mem_iff]

/-- What a request that succeeds has checked, and what its unit did. -/
structure Replaced (settings : Settings) (input : ReplaceSignersInput) (u : ReplaceSignersUnit)
    (before after : Envelope) : Prop where
  mode : u.signingMode = input.signingMode
  drawn : ∃ i existingIds, FreshIds input.signers i ∧ toSigners settings existingIds i input.signers = .ok u.signers
  routing : assertSignerRouting u.signingMode (u.signers.map Signer.routingOrder) = .ok ()
  effect : ReplaceSignersEffect u before after

theorem replacedRun {settings : Settings} {input : ReplaceSignersInput} {c c' : Running} {own}
    (run : Amid (esign settings) anyScope (FreshIds input.signers) c (replaceDocumentSigners settings input) own (.ok ()) c') :
    ∃ u c₁, Run (esign settings) anyScope c c₁ ∧ Replaced settings input u c₁.store c'.store := by
  obtain ⟨c₁,_,-,to₁,run⟩ := amidThenGet run
  obtain ⟨-,-,run⟩ := amidThenLift run
  obtain ⟨c₂,atClock,-,to₂,run⟩ := amidThenGet run
  obtain ⟨c₃,_,-,to₃,run⟩ := amidThenGet run
  obtain ⟨c₄,i,fresh,to₄,run⟩ := amidThenGet run
  obtain ⟨signers,drawn,run⟩ := amidThenLift run
  obtain ⟨_,routing,run⟩ := amidThenLift run
  obtain ⟨-,run⟩ := amidThenEnsure run
  obtain ⟨c₅,j,to₅,-,ok,rfl⟩ := amidPerform run
  refine ⟨⟨c₁.store.document,input.signingMode,signers,input.userId,atClock.now⟩,c₅,
    to₁.trans (to₂.trans (to₃.trans (to₄.trans to₅))),rfl,⟨i,_,fresh,drawn⟩,routing,?_⟩
  exact replaceSignersEffect (Write.execOk ok.symm)

theorem Replaced.storedIff {settings : Settings} {input : ReplaceSignersInput} {u : ReplaceSignersUnit} {e e' : Envelope}
    (done : Replaced settings input u e e') (ids : (e.signers.map Signer.id).Nodup) :
    RosterStored settings input e' ↔ input.distinctRows := by
  obtain ⟨i,existingIds,fresh,drawn⟩ := done.drawn
  obtain ⟨entries,drawnIds⟩ := signersDrawn drawn
  have kept : ((e.signers.filter (fun row => row.id ∈ u.signers.map Signer.id)).map Signer.id).Nodup :=
    ids.sublist (List.filter_sublist.map _)
  have named : ∀ row ∈ e.signers.filter (fun row => row.id ∈ u.signers.map Signer.id), row.id ∈ u.signers.map Signer.id :=
    fun row mem => of_decide_eq_true (List.mem_filter.mp mem).2
  have iff := replacedIff kept named
  rw [← done.effect.signers,drawnIds,fresh.distinctIff,entries] at iff
  refine ⟨fun stored => iff.mp stored.rows,fun distinct => ?_⟩
  have rows := iff.mpr distinct
  refine ⟨rows,?_⟩
  obtain ⟨given,rfl,prepared⟩ := done.effect.document
  have mode : e'.document.signingMode = u.signingMode := by
    rcases prepared with same | ⟨-,state,-,-,changed⟩
    · rw [same]
    · rw [changed]
  have orders : ((Signers.listByDocument e').map Signer.routingOrder).Perm (u.signers.map Signer.routingOrder) := by
    have listed := (List.perm_insertionSort (fun left right : Signer => left.routingOrder ≤ right.routingOrder) e'.signers).map
      Signer.routingOrder
    rw [← entries] at rows
    have order := rows.map RosterEntry.routingOrder
    rw [List.map_map,List.map_map] at order
    exact listed.trans order
  rw [mode,routingPerm orders]
  exact done.routing

theorem rosterStoredIff (settings : Settings) (draft : NewDraft) (input : ReplaceSignersInput) :
    ∀ c, Run (esign settings) anyScope (initial (createDraftDocument draft)) c → ∀ own c',
      Amid (esign settings) anyScope (FreshIds input.signers) c (replaceDocumentSigners settings input) own (.ok ()) c' →
      (RosterStored settings input c'.store ↔ input.distinctRows) := by
  intro c reached own c' run
  obtain ⟨u,c₁,later,done⟩ := replacedRun run
  have sound : (anyExtension.outline settings).Sound c₁ :=
    anyExtension.run ⟨draftConsistent draft,trivial⟩ (reached.trans later)
  exact done.storedIff sound.inv.1.signerIds

/-! Three new signers; and after them, two rows that name the first of the three. -/

namespace ThreeSigners

def listed : ReplaceSignersInput := ⟨3,.parallel,rows .parallel⟩

def repeated : ReplaceSignersInput :=
  ⟨3,.parallel,[⟨some 300,['d','@','b','.','c'],['x'],1⟩,⟨some 300,['e','@','b','.','c'],['y'],1⟩]⟩

theorem freshInput {rows : List SignerRow} (n : Nat) (unnamed : ∀ row ∈ rows, ∀ id, row.signerId = some id → id < 100*n) :
    FreshIds rows (input n) where
  distinct := fun k m same => by simpa [input] using same
  unnamed := fun row mem id named k same => by
    have below := unnamed row mem id named
    have drawn : 100*n+k = id := same
    exact absurd below (Nat.not_lt.mpr (Nat.le.intro drawn))

/-- One request with the store to itself, and how many signers it leaves. -/
def replacedAlone (request : ReplaceSignersInput) (n : Nat) (actions : List (Action Input Request)) : Option (Bool × Nat) := do
  let c ← (esign settings).applyAll (fun _ _ => true) start actions
  let result ← (replaceDocumentSigners settings request).solo (esign settings).exec c.store (List.replicate 5 (input n))
  pure (result.2.1.isOk,result.2.2.signers.length)

theorem replacedEvaluated : replacedAlone listed 3 [] = some (true,3) ∧
    replacedAlone repeated 4 (served 0 3 5 (.replaceDocumentSigners listed)) = some (true,1) := by
  decide +kernel

theorem replacedAmid {request : ReplaceSignersInput} {n count : Nat} {actions : List (Action Input Request)}
    (fresh : FreshIds request.signers (input n)) (evaluated : replacedAlone request n actions = some (true,count)) :
    ∃ c own c', Run (esign settings) anyScope start c ∧
      Amid (esign settings) anyScope (FreshIds request.signers) c (replaceDocumentSigners settings request) own (.ok ()) c' ∧
      c'.store.signers.length = count := by
  simp only [replacedAlone,Bind.bind,Option.bind_eq_some_iff] at evaluated
  obtain ⟨c,reached,⟨own,value,s⟩,solo,same⟩ := evaluated
  simp only [pure,Option.some.injEq,Prod.mk.injEq] at same
  cases value with
  | error error => cases same.1
  | ok _ =>
    refine ⟨c,own,_,runOfActions (fun _ _ => trivial) (fun _ _ _ => trivial) reached,amidSolo ?_ solo,same.2⟩
    exact fun i mem => (List.mem_replicate.mp mem).2 ▸ fresh

theorem listedStored : ∃ c own c', Run (esign settings) anyScope start c ∧
    Amid (esign settings) anyScope (FreshIds listed.signers) c (replaceDocumentSigners settings listed) own (.ok ()) c' ∧
    RosterStored settings listed c'.store := by
  obtain ⟨c,own,c',reached,amid,-⟩ := replacedAmid (freshInput 3 (by simp [listed,rows,signerRow])) replacedEvaluated.1
  exact ⟨c,own,c',reached,amid,(rosterStoredIff settings draft listed c reached own c' amid).mpr
    (show (listed.signers.filterMap SignerRow.signerId).Nodup by decide)⟩

theorem repeatedSigner : ¬ ∀ (input : ReplaceSignersInput) c, Run (esign settings) anyScope start c → ∀ own c',
    Amid (esign settings) anyScope (FreshIds input.signers) c (replaceDocumentSigners settings input) own (.ok ()) c' →
    RosterStored settings input c'.store := by
  intro stored
  have fresh : FreshIds repeated.signers (input 4) := freshInput 4 (by simp [repeated])
  obtain ⟨c,own,c',reached,amid,count⟩ := replacedAmid fresh replacedEvaluated.2
  have length := (stored repeated c reached own c' amid).rows.length_eq
  rw [List.length_map,count] at length
  cases length

end ThreeSigners
end ESign
