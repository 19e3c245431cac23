import Pubky.Common.Jws

/-!
# Scoped encryption keys

`pubky-common/src/encryption_keys.rs`: content keys derived from an identity secret along the
segments of a storage path. A directory key is the seed of its subtree, a file key is terminal.

* `derivePath` takes the proof that the scope covers the path, which the code asserts.
* `derivePath_trans`: deriving a path through a scope on the way gives the same key.
* A `ScopedEncryptionKeyBundle` carries the proof that its overlapping entries agree; both ways of
  making one, from the identity secret and from the wire, establish it.
-/

namespace Pubky

/-- 32 secret bytes. -/
@[ext]
structure Secret where
  bytes : Bytes
  length_eq : bytes.length = 32

instance : DecidableEq Secret := fun a b =>
  decidable_of_iff (a.bytes = b.bytes) Secret.ext_iff.symm

/-- HKDF with SHA-256 and outputs of 32 bytes, from the crate `hkdf`. -/
structure Hkdf where
  /-- extract without salt -/
  extract : Secret → Secret
  /-- expand a key with an info text -/
  expand : Secret → Bytes → Secret

def rootInfo : Bytes := utf8 "pubky/hierarchical-keys/v1/root".toList

def directoryInfo : Bytes := utf8 "pubky/hierarchical-keys/v1/directory".toList

def fileInfo : Bytes := utf8 "pubky/hierarchical-keys/v1/file-content".toList

variable (H : Hkdf)

/-! ## Derivation -/

/-- The root seed of an identity. -/
def deriveRootSecret (identitySecret : Secret) : Secret :=
  H.expand (H.extract identitySecret) rootInfo

/-- One step down the hierarchy: a segment that keeps its `/` is a directory. -/
def deriveChild (secret : Secret) (segment : Text) : Secret :=
  if Text.endsWith '/' segment then
    H.expand secret (directoryInfo ++ 0 :: utf8 segment.dropLast)
  else H.expand secret (fileInfo ++ 0 :: utf8 segment)

/-- The key of `path`, derived from the key of a scope that covers it. -/
def derivePath (scope : StoragePath) (seed : Secret) (path : StoragePath)
    (_covers : scope.coversPath path) : Secret :=
  (Text.splitInclusive '/' (path.asStr.drop scope.asStr.length)).foldl (deriveChild H) seed

/-- The key of a path does not depend on the scopes on the way to it. -/
theorem derivePath_trans {a b c : StoragePath} (hab : a.coversPath b) (hbc : b.coversPath c)
    (seed : Secret) :
    derivePath H b (derivePath H a seed b hab) c hbc =
      derivePath H a seed c (StoragePath.coversPath_trans hab hbc) := by
  have hb := StoragePath.coversPath_append hab
  have hc := StoragePath.coversPath_append hbc
  have hdrop : c.asStr.drop a.asStr.length =
      b.asStr.drop a.asStr.length ++ c.asStr.drop b.asStr.length := by
    rw [hc, List.drop_append_of_le_length]
    · simp
    · rw [hb]
      simp
  rw [derivePath, derivePath, derivePath, hdrop]
  by_cases hrel : b.asStr.drop a.asStr.length = []
  · simp [hrel, Text.splitInclusive]
  · by_cases heq : b = c
    · -- nothing is left to derive
      simp [heq, Text.splitInclusive]
    · -- the part up to `b` ends in a separator, because `b` is a directory
      have hdir : Text.endsWith '/' (b.asStr.drop a.asStr.length) := by
        have hlast := StoragePath.isDirectory_of_coversPath hbc heq
        rw [StoragePath.isDirectory, Text.endsWith, hb, List.getLast?_append] at hlast
        cases hg : (b.asStr.drop a.asStr.length).getLast? with
        | none => exact absurd (List.getLast?_eq_none_iff.1 hg) hrel
        | some x => simpa [Text.endsWith, hg] using hlast
      rw [Text.splitInclusive_append hdir, List.foldl_append]

/-! ## Bundles -/

/-- One wire entry: a directory seed or a file key with its scope. -/
structure KeyEntry where
  scope : StoragePath
  secret : Secret
  deriving DecidableEq

/-- Overlapping entries that disagree. -/
structure ConflictingKeys where
  scope : StoragePath
  otherScope : StoragePath
  deriving DecidableEq

/-- The covering entry of the two has to derive the key of the covered one. -/
def checkOverlap (entry other : KeyEntry) : Except ConflictingKeys Unit :=
  if h : entry.scope.coversPath other.scope then
    if derivePath H entry.scope entry.secret other.scope h = other.secret then .ok ()
    else .error ⟨entry.scope, other.scope⟩
  else if h : other.scope.coversPath entry.scope then
    if derivePath H other.scope other.secret entry.scope h = entry.secret then .ok ()
    else .error ⟨other.scope, entry.scope⟩
  else .ok ()

/-- Check every entry against the entries before it. -/
def validateOverlapConsistency (keys : List KeyEntry) : Except ConflictingKeys Unit :=
  forM keys.zipIdx fun (entry, index) => forM (keys.take index) (checkOverlap H entry)

/-- Scoped secrets delivered together for one approval. -/
structure ScopedEncryptionKeyBundle where
  keys : List KeyEntry
  consistent : validateOverlapConsistency H keys = .ok ()

/-- The entry of a scope, derived from the root seed. -/
def KeyEntry.ofRoot (rootSecret : Secret) (scope : StoragePath) : KeyEntry where
  scope := scope
  secret := derivePath H .root rootSecret scope (StoragePath.root_coversPath scope)

/-- Entries derived from one root agree. -/
theorem checkOverlap_ofRoot (rootSecret : Secret) (a b : StoragePath) :
    checkOverlap H (.ofRoot H rootSecret a) (.ofRoot H rootSecret b) = .ok () := by
  rw [checkOverlap]
  split
  · rename_i hab
    exact if_pos (derivePath_trans H (StoragePath.root_coversPath a) hab rootSecret)
  · split
    · rename_i hba
      exact if_pos (derivePath_trans H (StoragePath.root_coversPath b) hba rootSecret)
    · rfl

theorem validateOverlapConsistency_ofRoot (rootSecret : Secret) (scopes : List StoragePath) :
    validateOverlapConsistency H (scopes.map (KeyEntry.ofRoot H rootSecret)) = .ok () := by
  rw [validateOverlapConsistency, Except.forM_ok_iff]
  rintro ⟨entry, index⟩ hentry
  rw [Except.forM_ok_iff]
  intro other hother
  obtain ⟨a, -, rfl⟩ := List.mem_map.1 (List.fst_mem_of_mem_zipIdx hentry)
  obtain ⟨b, -, rfl⟩ := List.mem_map.1 (List.mem_of_mem_take hother)
  exact checkOverlap_ofRoot H rootSecret a b

namespace ScopedEncryptionKeyBundle

variable {H}

/-- Derive a bundle from the signer's identity secret. -/
def fromIdentitySecret (identitySecret : Secret) (scopes : List StoragePath) :
    ScopedEncryptionKeyBundle H where
  keys := scopes.map (KeyEntry.ofRoot H (deriveRootSecret H identitySecret))
  consistent := validateOverlapConsistency_ofRoot H _ scopes

/-- The check that the deserializer makes of the entries it reads. -/
def ofWire (keys : List KeyEntry) : Option (ScopedEncryptionKeyBundle H) :=
  match h : validateOverlapConsistency H keys with
  | .ok () => some ⟨keys, h⟩
  | .error _ => none

/-- The approved scopes, in delivery order. -/
def scopes (bundle : ScopedEncryptionKeyBundle H) : List StoragePath :=
  bundle.keys.map KeyEntry.scope

@[simp] theorem scopes_fromIdentitySecret (identitySecret : Secret) (paths : List StoragePath) :
    (fromIdentitySecret (H := H) identitySecret paths).scopes = paths := by
  have hscope : KeyEntry.scope ∘ KeyEntry.ofRoot H (deriveRootSecret H identitySecret) = id := rfl
  simp [scopes, fromIdentitySecret, hscope]

theorem ofWire_keys (bundle : ScopedEncryptionKeyBundle H) : ofWire bundle.keys = some bundle := by
  rw [ofWire]
  split
  · rfl
  · rename_i h
    rw [bundle.consistent] at h
    cases h

end ScopedEncryptionKeyBundle

/-! ## Lookup -/

/-- A requested path cannot yield a file content key. -/
inductive KeyDerivationError where
  /-- directory seeds are internal -/
  | directoryPath (requested : StoragePath)
  /-- no bundled key covers the file -/
  | outsideScope (requested : StoragePath)
  deriving DecidableEq

namespace ScopedEncryptionKeyBundle

variable {H}

/-- The key of a path from the first entry that covers it. -/
def deriveScopedPath (bundle : ScopedEncryptionKeyBundle H) (path : StoragePath) :
    Except KeyDerivationError Secret :=
  match h : bundle.keys.find? fun entry => entry.scope.coversPath path with
  | none => .error (.outsideScope path)
  | some entry =>
    have hcovers : entry.scope.coversPath path := by simpa using List.find?_some h
    .ok (derivePath H entry.scope entry.secret path hcovers)

/-- The content key of a file. -/
def deriveForPath (bundle : ScopedEncryptionKeyBundle H) (path : StoragePath) :
    Except KeyDerivationError Secret :=
  if path.isDirectory then .error (.directoryPath path) else bundle.deriveScopedPath path

end ScopedEncryptionKeyBundle

end Pubky
