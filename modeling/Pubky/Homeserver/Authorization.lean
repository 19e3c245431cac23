import Pubky.Homeserver.Http
import Pubky.Homeserver.Session

/-!
# Authorization of storage requests

`client_server/auth/authorization.rs`: who may write and who may read a path of a tenant.
`hasWritePermission_eq_ok` and `hasReadPermission_eq_ok` say exactly when the two predicates
accept.
-/

namespace Pubky.Homeserver

/-- Storage root for public data. -/
def publicRoot : Text := "/pub/".toList

/-- Storage root for private data. -/
def privateRoot : Text := "/priv/".toList

/-- Storage roots a write may target. -/
def storageRoots : List Text := [publicRoot, privateRoot]

/-- What a refused action is called. -/
def actionName : Action → Text
  | .read => "read access".toList
  | .write => "write access".toList
  | .encryptionKeys => "encryption key access".toList
  | .unknown _ => "access".toList

/-- Whether `session` targets tenant `pubkey` and holds a capability whose scope covers `path`
with `action`. -/
def sessionHasAction (session : AuthSession) (pubkey : PublicKey) (path : StoragePath)
    (action : Action) : Except HttpError Unit :=
  if session.userKey ≠ pubkey then
    .error (.forbiddenWithMessage "Session user does not match target tenant".toList)
  else if session.capabilities.permits path action then .ok ()
  else
    .error (.forbiddenWithMessage
      ("Session does not have ".toList ++ actionName action ++ " to path".toList))

/-- Authorize a write to `path` for `session` on tenant `pubkey`. -/
def hasWritePermission (session : AuthSession) (pubkey : PublicKey) (path : StoragePath) :
    Except HttpError Unit :=
  if !storageRoots.any fun root => root.isPrefixOf path.asStr then
    .error (.forbiddenWithMessage
      "Writing to directories other than '/pub/' and '/priv/' is forbidden".toList)
  else sessionHasAction session pubkey path .write

/-- Authorize a read of `path` for an optional `session` against an optional tenant. -/
def hasReadPermission (session : Option AuthSession) (pubkey : Option PublicKey)
    (path : StoragePath) : Except HttpError Unit :=
  if publicRoot.isPrefixOf path.asStr then .ok ()
  else if !privateRoot.isPrefixOf path.asStr then
    .error (.forbiddenWithMessage
      "Reading from directories other than '/pub/' and '/priv/' is forbidden".toList)
  else do
    let session ← session.okOr
      (.unauthorizedWithMessage "Authentication required to read private storage".toList)
    let pubkey ← pubkey.okOr
      (.forbiddenWithMessage "A private read must be scoped to exactly one user".toList)
    sessionHasAction session pubkey path .read

/-! ## What is accepted -/

/-- A session of `pubkey` with a capability whose scope covers `path` with `action`. -/
structure Entitled (session : AuthSession) (pubkey : PublicKey) (path : StoragePath)
    (action : Action) : Prop where
  user : session.userKey = pubkey
  capability : ∃ cap ∈ session.capabilities.toVec,
    cap.scope.coversPath path = true ∧ action ∈ cap.actions

variable {session : AuthSession} {pubkey : PublicKey} {path : StoragePath} {action : Action}

theorem Capabilities.permits_iff {cs : Capabilities} : cs.permits path action = true ↔
    ∃ cap ∈ cs.toVec, cap.scope.coversPath path = true ∧ action ∈ cap.actions := by
  simp [Capabilities.permits, Capability.scopeCoversPath]

theorem sessionHasAction_eq_ok :
    sessionHasAction session pubkey path action = .ok () ↔
      Entitled session pubkey path action := by
  constructor
  · intro h
    simp only [sessionHasAction] at h
    split at h
    · cases h
    · rename_i hkey
      split at h
      · rename_i hperm
        exact ⟨not_not.1 hkey, Capabilities.permits_iff.1 hperm⟩
      · cases h
  · rintro ⟨hkey, hcap⟩
    rw [sessionHasAction, if_neg (not_not.2 hkey), if_pos (Capabilities.permits_iff.2 hcap)]

/-- Exactly when a write is authorized. -/
theorem hasWritePermission_eq_ok :
    hasWritePermission session pubkey path = .ok () ↔
      (∃ root ∈ storageRoots, root <+: path.asStr) ∧ Entitled session pubkey path .write := by
  have hroots : (storageRoots.any fun root => root.isPrefixOf path.asStr) = true ↔
      ∃ root ∈ storageRoots, root <+: path.asStr := by
    simp
  rw [← hroots, ← sessionHasAction_eq_ok, hasWritePermission]
  cases h : storageRoots.any fun root => root.isPrefixOf path.asStr <;> simp

/-- Exactly when a read is authorized. -/
theorem hasReadPermission_eq_ok {session : Option AuthSession} {pubkey : Option PublicKey} :
    hasReadPermission session pubkey path = .ok () ↔
      publicRoot <+: path.asStr ∨ (privateRoot <+: path.asStr ∧
        ∃ s k, session = some s ∧ pubkey = some k ∧ Entitled s k path .read) := by
  rw [hasReadPermission]
  by_cases hpub : publicRoot <+: path.asStr
  · rw [if_pos (List.isPrefixOf_iff_prefix.2 hpub)]
    exact ⟨fun _ => .inl hpub, fun _ => rfl⟩
  · rw [if_neg fun h => hpub (List.isPrefixOf_iff_prefix.1 h), or_iff_right hpub]
    cases hpriv : privateRoot.isPrefixOf path.asStr with
    | true =>
      rw [Bool.not_true, if_neg Bool.false_ne_true]
      simp only [Except.bind_ok_iff, Option.okOr_eq_ok, sessionHasAction_eq_ok]
      constructor
      · rintro ⟨s, hs, k, hk, hent⟩
        exact ⟨List.isPrefixOf_iff_prefix.1 hpriv, s, k, hs, hk, hent⟩
      · rintro ⟨-, s, k, hs, hk, hent⟩
        exact ⟨s, hs, k, hk, hent⟩
    | false =>
      rw [Bool.not_false, if_pos rfl]
      constructor
      · intro h
        cases h
      · rintro ⟨h, -⟩
        exact absurd (List.isPrefixOf_iff_prefix.2 h) (Bool.eq_false_iff.1 hpriv)

end Pubky.Homeserver
