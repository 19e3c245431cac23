import Mathlib.Data.List.Dedup
import Mathlib.Data.List.Lex
import Mathlib.Data.List.Sort
import Pubky.Common.Utf8
import Pubky.Homeserver.Events.Repository
import Pubky.Lib.Paging

/-!
# Listing a directory

* `client_server/query_params.rs`: the parameters of a listing.
* `client_server/routes/tenants/read.rs`: the handler of a directory.
* `persistence/sql/entities/entry/repository.rs`: the queries for the entries below a directory and
  for its children.

Texts are compared byte by byte (`COLLATE "C"`). Every query lists a page of what it would list
without a cursor and a limit (`page_eq`), in a strict order (`pairwise_of_listed`).
-/

namespace Pubky.Homeserver.Listing

open Sql Storage

/-! ## Collation -/

/-- The bytes that `COLLATE "C"` compares. -/
def collationKey (t : Text) : List ℕ := (utf8 t).map UInt8.toNat

theorem collationKey_injective : Function.Injective collationKey := by
  intro t u h
  exact utf8_injective (List.map_injective_iff.2 (fun _ _ => UInt8.toNat_inj.1) h)

/-- The order of a listing: `x` before `y`. -/
def before (reverse : Bool) (x y : Text) : Bool :=
  if reverse then collationKey y < collationKey x else collationKey x < collationKey y

/-- `ORDER BY … COLLATE "C"`, ascending or descending. -/
def orderBy (reverse : Bool) (ts : List Text) : List Text :=
  ts.insertionSort fun x y =>
    if reverse then collationKey y ≤ collationKey x else collationKey x ≤ collationKey y

/-! ## Queries -/

/-- `regexp_replace(source, pattern, replacement)` of Postgres. -/
abbrev RegexpReplace := Text → Text → Text → Except SqlError Text

/-- The pattern with which the children of a directory are found. The directory is not escaped. -/
def childPattern (dir : Text) : Text := '^' :: dir ++ "([^/]*)(\\/?)(.*)?$".toList

def childReplacement (dir : Text) : Text := dir ++ "\\1\\2".toList

/-- A text without characters that are special in a regular expression, the dot apart. -/
def PlainDirectory (dir : Text) : Prop :=
  ∀ c ∈ dir, c ∉ ['*', '+', '?', '(', ')', '[', ']', '\x7b', '\x7d', '|', '^', '$', '\\']

/-- The child of a directory that what follows the directory is in. -/
def firstChild (rest : Text) : Text := ((Text.splitInclusive '/' rest).head?).getD []

/-- What is assumed of Postgres: a text that does not match stays, one that matches becomes the
replacement, and a directory without special characters matches itself. -/
structure RegexpReplace.Lawful (R : RegexpReplace) : Prop where
  replaced : ∀ dir path out, '\\' ∉ dir →
    R path (childPattern dir) (childReplacement dir) = .ok out → out = path ∨ dir <:+: out
  plain : ∀ dir rest, PlainDirectory dir →
    R (dir ++ rest) (childPattern dir) (childReplacement dir) = .ok (dir ++ firstChild rest)

section

variable (C : Crates) (R : RegexpReplace) (users : List UserRow) (rows : List EntryRow)

/-- The text of a directory; a missing slash is added. -/
def directoryText (path : StoragePath) : Text :=
  if Text.endsWith '/' path.asStr then path.asStr else path.asStr ++ ['/']

/-- `entries LEFT JOIN users`, where the user has the key and the path is below the directory. -/
def entriesBelow (path : EntryPath) : List Text :=
  (rows.filter fun r =>
    users.any (fun u => u.id = r.user && u.publicKey = C.z32 path.pubkey) &&
      Like.like (Events.PathFilter.startsWith (directoryText path.path)) r.path).map EntryRow.path

def containsDirectory (path : EntryPath) : Bool := !(entriesBelow C users rows path).isEmpty

/-- The column `regpath` of a row: what follows the child of the directory is cut off. -/
def regpath (dir path : Text) : Except SqlError Text :=
  R path (childPattern dir) (childReplacement dir)

/-- The rows of a listing before its cursor, order and limit apply. -/
def selected (shallow : Bool) (path : EntryPath) : Except SqlError (List Text) :=
  if shallow then
    ((entriesBelow C users rows path).mapM (regpath R (directoryText path.path))).map List.dedup
  else .ok (entriesBelow C users rows path)

/-- `WHERE … ORDER BY … LIMIT …` and the paths of the rows. -/
def page (limit : Option ℕ) (cursor : Option EntryPath) (reverse : Bool) (paths : List Text) :
    Except SqlError (List StoragePath) :=
  ((orderBy reverse (paths.filter fun t => cursor.all fun c => before reverse c.path.asStr t)).take
    (Events.effectiveListLimit limit)).mapM fun t => decoded (StoragePath.new t)

def listShallow (path : EntryPath) (limit : Option ℕ) (cursor : Option EntryPath)
    (reverse : Bool) : Except SqlError (List EntryPath) := do
  let paths ← selected C R users rows true path
  return (← page limit cursor reverse paths).map (⟨path.pubkey, ·⟩)

def listDeep (path : EntryPath) (limit : Option ℕ) (cursor : Option EntryPath)
    (reverse : Bool) : Except SqlError (List EntryPath) := do
  let paths ← selected C R users rows false path
  return (← page limit cursor reverse paths).map (⟨path.pubkey, ·⟩)

end

/-! ## The handler -/

structure ListQueryParams where
  limit : Option ℕ
  cursor : Option Text
  shallow : Bool
  reverse : Bool
  deriving DecidableEq

/-- The value of a key in the map of a query's pairs; of repeated keys the last one counts. -/
def getParam (pairs : List (Text × Text)) (key : String) : Option Text :=
  (pairs.reverse.find? fun pair => pair.1 = key.toList).map Prod.snd

def parseBool (value : Text) : Except HttpError Bool :=
  let value := value.map Char.toLower
  if ["true", "yes", "1", ""].any (·.toList = value) then .ok true
  else if ["false", "no", "0"].any (·.toList = value) then .ok false
  else .error (.badRequest "Invalid boolean parameter".toList)

namespace ListQueryParams

/-- An empty cursor is none; the scheme is removed. -/
def extractCursor (pairs : List (Text × Text)) : Option Text :=
  match getParam pairs "cursor" with
  | none => none
  | some value =>
    if value = [] then none else some ((Text.stripStart "pubky://".toList value).getD value)

def flag (pairs : List (Text × Text)) (key : String) : Except HttpError Bool :=
  match getParam pairs key with
  | some value => parseBool value
  | none => .ok false

def fromPairs (pairs : List (Text × Text)) : Except HttpError ListQueryParams := do
  let reverse ← flag pairs "reverse"
  let shallow ← flag pairs "shallow"
  let limit := ((getParam pairs "limit").filter (· ≠ [])).bind (Text.parseUnsigned 16)
  return { limit, cursor := extractCursor pairs, shallow, reverse }

end ListQueryParams

/-- What a listing without a cursor and a limit finds. -/
def listed (C : Crates) (R : RegexpReplace) (users : List UserRow) (rows : List EntryRow)
    (shallow reverse : Bool) (path : EntryPath) : Except SqlError (List StoragePath) := do
  let paths ← selected C R users rows shallow path
  (orderBy reverse paths).mapM fun t => decoded (StoragePath.new t)

/-! ## Orders -/

variable {reverse shallow : Bool} {x y z : Text} {ts : List Text}

theorem before_asymm (h : before reverse x y) : ¬ before reverse y x := by
  cases reverse <;> simp_all [before, le_of_lt]

theorem before_trans (hxy : before reverse x y) (hyz : before reverse y z) :
    before reverse x z := by
  cases reverse with
  | false =>
    simp only [before, Bool.false_eq_true, if_false, decide_eq_true_eq] at hxy hyz ⊢
    exact lt_trans hxy hyz
  | true =>
    simp only [before, if_true, decide_eq_true_eq] at hxy hyz ⊢
    exact lt_trans hyz hxy

/-- The relation that a listing is sorted by. -/
def notAfter (reverse : Bool) (x y : Text) : Prop :=
  if reverse then collationKey y ≤ collationKey x else collationKey x ≤ collationKey y

theorem before_of_notAfter (h : notAfter reverse x y) (hne : x ≠ y) : before reverse x y := by
  have hkey : collationKey x ≠ collationKey y := fun h' => hne (collationKey_injective h')
  cases reverse with
  | false =>
    simp only [notAfter, before, Bool.false_eq_true, if_false, decide_eq_true_eq] at h ⊢
    exact lt_of_le_of_ne h hkey
  | true =>
    simp only [notAfter, before, if_true, decide_eq_true_eq] at h ⊢
    exact lt_of_le_of_ne h hkey.symm

theorem pairwise_orderBy (reverse : Bool) (ts : List Text) :
    (orderBy reverse ts).Pairwise (notAfter reverse) := by
  cases reverse with
  | false =>
    have htotal : Std.Total fun x y : Text => collationKey x ≤ collationKey y :=
      ⟨fun x y => le_total _ _⟩
    have htrans : IsTrans Text fun x y => collationKey x ≤ collationKey y :=
      ⟨fun _ _ _ => le_trans⟩
    exact List.pairwise_insertionSort (fun x y : Text => collationKey x ≤ collationKey y) ts
  | true =>
    have htotal : Std.Total fun x y : Text => collationKey y ≤ collationKey x :=
      ⟨fun x y => le_total _ _⟩
    have htrans : IsTrans Text fun x y => collationKey y ≤ collationKey x :=
      ⟨fun _ _ _ h h' => le_trans h' h⟩
    exact List.pairwise_insertionSort (fun x y : Text => collationKey y ≤ collationKey x) ts

theorem perm_orderBy (reverse : Bool) (ts : List Text) : (orderBy reverse ts).Perm ts :=
  List.perm_insertionSort _ ts

/-- A sorted list without repetitions is sorted strictly. -/
theorem pairwise_before (h : ts.Nodup) : (orderBy reverse ts).Pairwise (before reverse · ·) := by
  have hnodup : (orderBy reverse ts).Nodup := (perm_orderBy reverse ts).nodup_iff.2 h
  exact ((pairwise_orderBy reverse ts).and hnodup).imp fun h => before_of_notAfter h.1 h.2

/-- Rows may be selected before they are sorted or after. -/
theorem orderBy_filter (p : Text → Bool) :
    orderBy reverse (ts.filter p) = (orderBy reverse ts).filter p := by
  have hperm : (orderBy reverse (ts.filter p)).Perm ((orderBy reverse ts).filter p) :=
    (perm_orderBy reverse _).trans ((perm_orderBy reverse ts).filter p).symm
  refine hperm.eq_of_pairwise ?_ (pairwise_orderBy reverse _)
    ((pairwise_orderBy reverse ts).filter p)
  intro x y _ _ hxy hyx
  refine collationKey_injective ?_
  cases reverse with
  | false => exact le_antisymm hxy hyx
  | true => exact le_antisymm hyx hxy

/-! ## Pages -/

theorem mapM_new_eq_ok {items : List StoragePath} :
    (ts.mapM fun t => decoded (StoragePath.new t)) = .ok items ↔ ts = items.map StoragePath.asStr := by
  have hnew : ∀ (t : Text) (p : StoragePath),
      decoded (StoragePath.new t) = .ok p ↔ t = p.asStr := by
    intro t p
    rw [decoded_eq_ok]
    exact ⟨fun h => (StoragePath.asStr_of_new h).symm, fun h => h ▸ p.new_asStr⟩
  simp only [List.mapM_eq_ok, hnew, ← List.forall₂_map_right_iff, List.forall₂_eq_eq_eq]

variable {C : Crates} {R : RegexpReplace} {users : List UserRow} {rows : List EntryRow}
  {path : EntryPath} {items : List StoragePath}

theorem listed_eq_ok :
    listed C R users rows shallow reverse path = .ok items ↔
      ∃ paths, selected C R users rows shallow path = .ok paths ∧
        orderBy reverse paths = items.map StoragePath.asStr := by
  simp only [listed, Except.bind_ok_iff, mapM_new_eq_ok]

theorem selected_shallow {paths : List Text} :
    selected C R users rows true path = .ok paths ↔
      ∃ found, List.Forall₂ (fun t u => regpath R (directoryText path.path) t = .ok u)
        (entriesBelow C users rows path) found ∧ found.dedup = paths := by
  simp only [← List.mapM_eq_ok, selected, if_true]
  cases (entriesBelow C users rows path).mapM (regpath R (directoryText path.path)) <;>
    simp [Except.map]

/-- The item comes after the cursor. -/
def pastPath (reverse : Bool) (cursor item : StoragePath) : Bool :=
  before reverse cursor.asStr item.asStr

/-- A query finds a page of what is listed. -/
theorem page_eq {paths : List Text} (hpaths : orderBy reverse paths = items.map StoragePath.asStr)
    (limit : Option ℕ) (cursor : Option EntryPath) :
    page limit cursor reverse paths =
      .ok (Paging.page (pastPath reverse) (Events.effectiveListLimit limit) items
        (cursor.map EntryPath.path)) := by
  rw [page, mapM_new_eq_ok, orderBy_filter, hpaths, List.filter_map, ← List.map_take]
  refine congrArg (List.map StoragePath.asStr) (congrArg (List.take _) ?_)
  rw [Paging.rest]
  refine List.filter_congr fun item _ => ?_
  cases cursor <;> rfl

/-- Both queries select, order and limit the rows in the same way. -/
theorem query_eq (limit : Option ℕ) (cursor : Option EntryPath) :
    (if shallow then listShallow C R users rows path limit cursor reverse
      else listDeep C R users rows path limit cursor reverse) = (do
        let paths ← selected C R users rows shallow path
        return (← page limit cursor reverse paths).map (⟨path.pubkey, ·⟩)) := by
  cases shallow <;> rfl

/-- The schema: public keys and the paths of a user are unique, and the paths are those of files. -/
structure Schema (users : List UserRow) (rows : List EntryRow) : Prop where
  publicKey : ∀ u ∈ users, ∀ v ∈ users, u.publicKey = v.publicKey → u.id = v.id
  path : rows.Pairwise fun r s => ¬ (r.user = s.user ∧ r.path = s.path)
  canonical : ∀ r ∈ rows, validateCanonical r.path = .ok ()
  file : ∀ r ∈ rows, Text.endsWith '/' r.path = false

theorem nodup_entriesBelow (hschema : Schema users rows) :
    (entriesBelow C users rows path).Nodup := by
  rw [entriesBelow, List.Nodup, List.pairwise_map]
  refine (hschema.path.filter _).imp_of_mem ?_
  intro r s hr hs hne heq
  have hr' := (List.mem_filter.1 hr).2
  have hs' := (List.mem_filter.1 hs).2
  simp only [Bool.and_eq_true, List.any_eq_true, decide_eq_true_eq] at hr' hs'
  obtain ⟨⟨u, hu, huser, hukey⟩, -⟩ := hr'
  obtain ⟨⟨v, hv, hvuser, hvkey⟩, -⟩ := hs'
  exact hne ⟨by rw [← huser, ← hvuser, hschema.publicKey u hu v hv (hukey.trans hvkey.symm)], heq⟩

/-- A listing is sorted strictly. -/
theorem pairwise_of_listed (hschema : Schema users rows)
    (h : listed C R users rows shallow reverse path = .ok items) :
    items.Pairwise (pastPath reverse · ·) := by
  obtain ⟨paths, hselected, hpaths⟩ := listed_eq_ok.1 h
  have hnodup : paths.Nodup := by
    cases shallow with
    | true =>
      obtain ⟨found, -, rfl⟩ := selected_shallow.1 hselected
      exact List.nodup_dedup found
    | false =>
      cases hselected
      exact nodup_entriesBelow hschema
  have hpairwise : (orderBy reverse paths).Pairwise (before reverse · ·) := pairwise_before hnodup
  rw [hpaths, List.pairwise_map] at hpairwise
  exact hpairwise

/-! ## What is listed -/

theorem mem_entriesBelow {t : Text} :
    t ∈ entriesBelow C users rows path ↔
      ∃ r ∈ rows, r.path = t ∧ directoryText path.path <+: t ∧
        ∃ u ∈ users, u.id = r.user ∧ u.publicKey = C.z32 path.pubkey := by
  simp only [entriesBelow, List.mem_map, List.mem_filter, Bool.and_eq_true, List.any_eq_true,
    decide_eq_true_eq, Events.PathFilter.startsWith, Like.like_escape, List.isPrefixOf_iff_prefix]
  constructor
  · rintro ⟨r, ⟨hr, huser, hlike⟩, rfl⟩
    exact ⟨r, hr, rfl, hlike, huser⟩
  · rintro ⟨r, hr, rfl, hlike, huser⟩
    exact ⟨r, ⟨hr, huser, hlike⟩, rfl⟩

end Pubky.Homeserver.Listing
