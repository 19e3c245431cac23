import Mathlib.Data.List.Sort
import Pubky.Common.StoragePath
import Pubky.Lib.BinarySearch
import Pubky.Lib.Subsume

/-!
# Capabilities

`pubky-common/src/capabilities.rs`: what a bearer can access (a scope) and how (a set of
actions), with the text format `<scope>:<actions>` in which they are signed and stored.
A `Capability` carries the proof that its scope contains no delimiter of that format,
which `parseScope` checks in every constructor.
-/

namespace Pubky

/-- Actions allowed on a given scope. -/
inductive Action where
  | read
  | write
  | encryptionKeys
  | unknown (c : Char)
  deriving DecidableEq, Repr

namespace Action

/-- The position of an action in the derived order. -/
def rank : Action → ℕ
  | read => 0
  | write => 1
  | encryptionKeys => 2
  | unknown c => 3 + c.toNat

def toChar : Action → Char
  | read => 'r'
  | write => 'w'
  | encryptionKeys => 'e'
  | unknown c => c

end Action

inductive CapabilityParseError where
  | invalidScope (e : StoragePathError)
  | invalidScopeDelimiter (c : Char)
  | invalidFormat
  | missingActions
  | invalidAction (c : Char)
  deriving DecidableEq, Repr

def Action.tryFrom (c : Char) : Except CapabilityParseError Action :=
  if c = 'r' then .ok .read
  else if c = 'w' then .ok .write
  else if c = 'e' then .ok .encryptionKeys
  else .error (.invalidAction c)

/-- A scope text without the delimiters of the wire format. -/
def NoDelimiter (scope : Text) : Prop := ':' ∉ scope ∧ ',' ∉ scope

instance (scope : Text) : Decidable (NoDelimiter scope) :=
  inferInstanceAs (Decidable (_ ∧ _))

/-- A scope and the actions allowed within it. -/
structure Capability where
  scope : StoragePath
  actions : List Action
  noDelimiter : NoDelimiter scope.asStr
  deriving DecidableEq

/-- A scope that a capability may have. -/
def parseScope (scope : Text) :
    Except CapabilityParseError { p : StoragePath // NoDelimiter p.asStr } :=
  if hcolon : ':' ∈ scope then .error (.invalidScopeDelimiter ':')
  else if hcomma : ',' ∈ scope then .error (.invalidScopeDelimiter ',')
  else
    match h : validateCanonical scope with
    | .ok () => .ok ⟨⟨scope, h⟩, hcolon, hcomma⟩
    | .error e => .error (.invalidScope e)

namespace Capability

/-- Root capability at `/` with read and write. -/
def root : Capability := ⟨.root, [.read, .write], by decide⟩

def withActions (scope : Text) (actions : List Action) :
    Except CapabilityParseError Capability := do
  let p ← parseScope scope
  return ⟨p.1, actions, p.2⟩

def read (scope : Text) : Except CapabilityParseError Capability :=
  withActions scope [.read]

def write (scope : Text) : Except CapabilityParseError Capability :=
  withActions scope [.write]

def readWrite (scope : Text) : Except CapabilityParseError Capability :=
  withActions scope [.read, .write]

def encryptionKeys (scope : Text) : Except CapabilityParseError Capability :=
  withActions scope [.encryptionKeys]

/-- Whether this capability grants scoped encryption and decryption keys. -/
def grantsEncryptionKeys (c : Capability) : Bool :=
  c.actions.contains .encryptionKeys

/-- Whether this grants root storage read and write access. -/
def isRoot (c : Capability) : Bool :=
  c.scope.isRoot && c.actions.contains .read && c.actions.contains .write

def scopeCoversPath (c : Capability) (path : StoragePath) : Bool :=
  c.scope.coversPath path

/-- Whether the scope is equal or broader, and every action of `other` is one of `c`. -/
def covers (c other : Capability) : Bool :=
  c.scopeCoversPath other.scope && other.actions.all fun action => c.actions.contains action

def toText (c : Capability) : Text :=
  c.scope.asStr ++ ':' :: c.actions.map Action.toChar

/-- The loop over the action letters: a sorted list without duplicates. -/
def parseActions : List Action → Text → Except CapabilityParseError (List Action)
  | actions, [] => .ok actions
  | actions, c :: cs => do
    let action ← Action.tryFrom c
    match Sorted.binarySearchBy (fun a => compare a.rank action.rank) actions with
    | .ok _ => parseActions actions cs
    | .error index => parseActions (Sorted.insertAt actions index action) cs

/-- Parse `<scope>:<actions>`. -/
def fromStr (value : Text) : Except CapabilityParseError Capability :=
  match Text.splitOnce ':' value with
  | none => .error .invalidFormat
  | some (scope, actionsStr) =>
    if ':' ∈ actionsStr then .error .invalidFormat
    else if actionsStr = [] then .error .missingActions
    else do
      let actions ← parseActions [] actionsStr
      let p ← parseScope scope
      return ⟨p.1, actions, p.2⟩

end Capability

structure CapabilitiesParseError where
  position : ℕ
  entry : Text
  source : CapabilityParseError
  deriving DecidableEq, Repr

/-- A list of capabilities, written as one comma separated text. -/
structure Capabilities where
  toVec : List Capability
  deriving DecidableEq

namespace Capabilities

/-- Whether any capability covers `path` with `action`. -/
def permits (cs : Capabilities) (path : StoragePath) (action : Action) : Bool :=
  cs.toVec.any fun cap => cap.scopeCoversPath path && cap.actions.contains action

def toText (cs : Capabilities) : Text :=
  Text.join ',' (cs.toVec.map Capability.toText)

/-- Parse the entries of a list, the first of them at the given zero-based index. -/
def parseEntries : ℕ → List Text → Except CapabilitiesParseError (List Capability)
  | _, [] => .ok []
  | index, entry :: rest =>
    match Capability.fromStr entry with
    | .error e => .error ⟨index + 1, entry, e⟩
    | .ok cap => do
      let caps ← parseEntries (index + 1) rest
      return cap :: caps

def fromStr (value : Text) : Except CapabilitiesParseError Capabilities :=
  if value = [] then .ok ⟨[]⟩
  else do
    let caps ← parseEntries 0 (value.splitOn ',')
    return ⟨caps⟩

end Capabilities

/-! ## Normalization -/

/-- The actions in order and without duplicates, as a `BTreeSet` has them. -/
def Action.set (actions : List Action) : List Action :=
  actions.dedup.insertionSort fun a b => a.rank ≤ b.rank

namespace Capability

/-- The capability with the actions as a set. -/
def withActionSet (c : Capability) (actions : List Action) : Capability :=
  { c with actions := Action.set actions }

/-- The first loop of `normalize`: capabilities of one scope become one. -/
def mergeScope (merged : List Capability) (cap : Capability) : List Capability :=
  merged.upsert (fun existing => existing.scope == cap.scope)
    (fun existing => existing.withActionSet (existing.actions ++ cap.actions))
    (cap.withActionSet cap.actions)

/-- Merge the capabilities of one scope, then drop those that a broader one covers. -/
def normalize (caps : List Capability) : List Capability :=
  (caps.foldl mergeScope []).maximal covers

end Capability

/-- Return a normalized capability list. -/
def Capabilities.normalize (cs : Capabilities) : Capabilities := ⟨Capability.normalize cs.toVec⟩

/-- Fluent builder for several capabilities. -/
structure CapsBuilder where
  caps : List Capability := []

namespace CapsBuilder

def cap (b : CapsBuilder) (c : Capability) : CapsBuilder := ⟨b.caps ++ [c]⟩

def read (b : CapsBuilder) (scope : Text) : Except CapabilityParseError CapsBuilder :=
  b.cap <$> Capability.read scope

def write (b : CapsBuilder) (scope : Text) : Except CapabilityParseError CapsBuilder :=
  b.cap <$> Capability.write scope

def readWrite (b : CapsBuilder) (scope : Text) : Except CapabilityParseError CapsBuilder :=
  b.cap <$> Capability.readWrite scope

def encryptionKeys (b : CapsBuilder) (scope : Text) : Except CapabilityParseError CapsBuilder :=
  b.cap <$> Capability.encryptionKeys scope

def extend (b : CapsBuilder) (cs : List Capability) : CapsBuilder := ⟨b.caps ++ cs⟩

/-- Produce the normalized list. -/
def finish (b : CapsBuilder) : Capabilities := Capabilities.normalize ⟨b.caps⟩

end CapsBuilder

end Pubky
