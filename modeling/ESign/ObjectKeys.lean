import ESign.AuditSweep
import ESign.PosixPath

/-! The object keys of a tenant, for any relative key a caller may name, and where the file
system driver puts them. An organization id that requireOrganizationId accepts is an
`OpaqueId`. -/
namespace ESign.ObjectKeys
open JsText ObjectCheckpointStore PosixPath

def tenantObjectKey (organizationId : OpaqueId) (relativeKey : Utf16) : Except AppError Utf16 := do
  let trimmed := relativeKey.dropWhile (· = 47)
  assertSafeObjectKeySegments trimmed
  if (utf16 "org/").isPrefixOf trimmed then do
    check ((tenantObjectKeyPrefix organizationId).isPrefixOf trimmed) (.integrity [("reason","object_key_tenant_mismatch")])
    .ok trimmed
  else do
    assertSafeObjectKeySegments (tenantObjectKeyPrefix organizationId ++ trimmed)
    .ok (tenantObjectKeyPrefix organizationId ++ trimmed)

/-- `root` is the directory the driver was given. -/
def resolveUnderRoot (cwd root key : Utf16) : Except AppError Utf16 := do
  let absoluteRoot := resolve cwd [root]
  let candidate := resolve cwd (absoluteRoot :: key.splitOn 47)
  check (candidate = absoluteRoot || (absoluteRoot ++ [47]).isPrefixOf candidate)
    (.integrity [("reason","object_key_escapes_root")])
  .ok candidate

def withoutTrailingSlash (key : Utf16) : Utf16 := if key.getLast? = some 47 then key.dropLast else key

structure SafeKey (key : Utf16) : Prop where
  backslash : 92 ∉ key
  nul : 0 ∉ key
  segments : ∀ segment ∈ (withoutTrailingSlash key).splitOn 47, Clean segment

theorem safeKey {key : Utf16} (safe : assertSafeObjectKeySegments key = .ok ()) : SafeKey key := by
  rw [assertSafeObjectKeySegments,thenOk,thenOk,checkOk,checkOk,checkOk] at safe
  obtain ⟨units,-,segments⟩ := safe
  rw [List.all_eq_true] at segments
  simp only [Bool.and_eq_true,Bool.not_eq_true',List.contains_eq_mem,decide_eq_false_iff_not] at units
  refine ⟨units.1,units.2,fun segment mem => ?_⟩
  have kept := segments segment mem
  simp only [Bool.and_eq_true,decide_eq_true_eq] at kept
  exact ⟨kept.1.1,kept.1.2,kept.2,slashFree mem⟩

theorem tenantOk {organizationId : OpaqueId} {key : Utf16} : assertTenantObjectKey organizationId key = .ok () ↔
    assertSafeObjectKeySegments key = .ok () ∧ tenantObjectKeyPrefix organizationId <+: key := by
  rw [assertTenantObjectKey,thenOk,checkOk,List.isPrefixOf_iff_prefix]

theorem oneTenant {first second : OpaqueId} {key : Utf16} (here : tenantObjectKeyPrefix first <+: key)
    (there : tenantObjectKeyPrefix second <+: key) : first = second := by
  have lengths : (tenantObjectKeyPrefix first).length = (tenantObjectKeyPrefix second).length := by
    simp only [tenantObjectKeyPrefix,List.length_append,opaqueIdLength]
  have same := List.prefix_of_prefix_length_le here there (Nat.le_of_eq lengths)
  have texts := same.eq_of_length lengths
  rw [tenantObjectKeyPrefix,tenantObjectKeyPrefix,List.append_assoc,List.append_assoc,List.append_cancel_left_eq] at texts
  exact opaqueIdExt (List.append_inj_left texts (by rw [opaqueIdLength,opaqueIdLength]))

theorem prefixHead (organizationId : OpaqueId) {key : Utf16} (tenant : tenantObjectKeyPrefix organizationId <+: key) :
    utf16 "org/" <+: key := by
  refine List.IsPrefix.trans ?_ tenant
  rw [tenantObjectKeyPrefix,List.append_assoc]
  exact List.prefix_append _ _

theorem returnedKey {organizationId : OpaqueId} {relativeKey key : Utf16}
    (returned : tenantObjectKey organizationId relativeKey = .ok key) : assertTenantObjectKey organizationId key = .ok () := by
  rw [tenantObjectKey,thenOk] at returned
  obtain ⟨trimmedSafe,returned⟩ := returned
  rw [tenantOk]
  split at returned
  · obtain ⟨tenant,same⟩ := thenOk.mp returned
    cases same
    rw [checkOk,List.isPrefixOf_iff_prefix] at tenant
    exact ⟨trimmedSafe,tenant⟩
  · obtain ⟨safe,same⟩ := thenOk.mp returned
    cases same
    exact ⟨safe,List.prefix_append _ _⟩

theorem tenantKeyKept {organizationId : OpaqueId} {key : Utf16} (tenant : assertTenantObjectKey organizationId key = .ok ()) :
    tenantObjectKey organizationId key = .ok key := by
  obtain ⟨safe,here⟩ := tenantOk.mp tenant
  have org := prefixHead organizationId here
  have untrimmed : key.dropWhile (· = 47) = key := by
    obtain ⟨rest,rfl⟩ := org
    rfl
  rw [tenantObjectKey,untrimmed,safe]
  show (if _ then _ else _) = _
  rw [if_pos (List.isPrefixOf_iff_prefix.mpr org),List.isPrefixOf_iff_prefix.mpr here]
  rfl

theorem namedSegments {key : Utf16} (safe : SafeKey key) :
    (key.splitOn 47).filter (· ≠ []) = (withoutTrailingSlash key).splitOn 47 := by
  have named := safe.segments
  rw [withoutTrailingSlash] at named ⊢
  split at named
  · next slash =>
    rw [if_pos slash]
    obtain ⟨front,rfl⟩ := List.getLast?_eq_some_iff.mp slash
    rw [List.dropLast_concat] at named ⊢
    rw [List.splitOn_append_cons_self,List.splitOn_nil,List.filter_append,
      List.filter_eq_self.mpr (fun segment mem => by simpa using (named segment mem).some)]
    simp
  · next other =>
    rw [if_neg other]
    exact List.filter_eq_self.mpr (fun segment mem => by simpa using (named segment mem).some)

theorem keyBelowRoot {key : Utf16} (safe : SafeKey key) {cwd root : Utf16} (below : resolve cwd [root] ≠ [47]) :
    ∃ rest, resolveUnderRoot cwd root key = .ok (resolve cwd [root] ++ 47 :: rest) ∧ rest ≠ [] := by
  have named := namedSegments safe
  have clean := safe.segments
  rw [← named] at clean
  have some : (key.splitOn 47).filter (· ≠ []) ≠ [] := by
    rw [named]
    exact List.splitOn_ne_nil _ _
  have candidate := resolvedBelow below (fun _ mem => slashFree mem) clean some
  refine ⟨_,?_,intercalateSome some (fun segment mem => (clean segment mem).some)⟩
  have under : (resolve cwd [root] ++ [47]).isPrefixOf (resolve cwd (resolve cwd [root] :: key.splitOn 47)) = true := by
    rw [candidate,List.isPrefixOf_iff_prefix]
    exact ⟨_,List.append_assoc _ _ _⟩
  rw [resolveUnderRoot,under,Bool.or_true,candidate]
  rfl

/- Keys of two tenants are never the same, and a returned key stays with its tenant and below
the root of the driver. -/
theorem tenantKeys :
    (∀ (first second : OpaqueId) (key : Utf16), first ≠ second →
      assertTenantObjectKey first key = .ok () → assertTenantObjectKey second key ≠ .ok ()) ∧
    ∀ (organizationId : OpaqueId) (relativeKey key : Utf16), tenantObjectKey organizationId relativeKey = .ok key →
      assertTenantObjectKey organizationId key = .ok () ∧ tenantObjectKey organizationId key = .ok key ∧ SafeKey key ∧
      ∀ cwd root, resolve cwd [root] ≠ [47] →
        ∃ rest, resolveUnderRoot cwd root key = .ok (resolve cwd [root] ++ 47 :: rest) ∧ rest ≠ [] := by
  constructor
  · intro first second key different here there
    exact different (oneTenant (tenantOk.mp here).2 (tenantOk.mp there).2)
  · intro organizationId relativeKey key returned
    have tenant := returnedKey returned
    have safe := safeKey (tenantOk.mp tenant).1
    exact ⟨tenant,tenantKeyKept tenant,safe,fun cwd root below => keyBelowRoot safe below⟩

end ESign.ObjectKeys
