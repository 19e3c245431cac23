import Pubky.Homeserver.Listing
import Pubky.Homeserver.Storage.Sample

/-!
# Directories

Entries are files; a directory is what the paths of entries lie in. This module says what the
queries of `persistence/sql/entities/entry/repository.rs` find out about directories:

* `has_file_folder_collision` compares bytes, and still finds only what lies in a directory of that
  name and what is a file where the path needs a directory (`collision_query_exact`);
* `list_shallow` cuts paths with a pattern in which the directory is not escaped, so that it lists
  the children of a directory only if the pattern matches the directory (`lists_children_iff`);
* the pages of a listing, each read from the last item of the one before, make up the listing
  (`pages_partition_listing`).
-/

namespace Pubky.Homeserver.Listing

open Sql Storage

variable {C : Crates} {R : RegexpReplace} {users : List UserRow} {rows : List EntryRow}
  {path : EntryPath} {reverse shallow : Bool}

/-! ## Collisions -/

/-- The row belongs to the user with the key. -/
def ownedBy (C : Crates) (users : List UserRow) (key : PublicKey) (r : EntryRow) : Bool :=
  users.any fun u => u.id = r.user && u.publicKey = C.z32 key

/-- `EntryRepository::has_file_folder_collision` -/
def hasFileFolderCollision (C : Crates) (users : List UserRow) (rows : List EntryRow)
    (path : EntryPath) : Bool :=
  let (after, before) := descendantPathBounds path.path.asStr
  let ancestors := ancestorFilePaths path.path.asStr ++
    if Text.endsWith '/' path.path.asStr && path.path.asStr.dropLast ≠ [] then
      [path.path.asStr.dropLast]
    else []
  rows.any (fun r => ownedBy C users path.pubkey r &&
    (collationKey after < collationKey r.path && collationKey r.path < collationKey before)) ||
  rows.any fun r => ownedBy C users path.pubkey r && ancestors.contains r.path

theorem collationKey_concat (t : Text) {c : Char} {n : ℕ} (hc : collationKey [c] = [n]) :
    collationKey (t ++ [c]) = collationKey t ++ [n] := by
  rw [← hc, collationKey, utf8_append, List.map_append]
  rfl

theorem collationKey_prefix_iff {t u : Text} : collationKey t <+: collationKey u ↔ t <+: u := by
  rw [collationKey, collationKey, List.prefix_map_iff_of_injective fun _ _ => UInt8.toNat_inj.1,
    utf8_prefix_iff]

/-- In the order of the bytes, too, the bounds enclose what is below the folder. -/
theorem between_bytes_iff (folder t : Text) :
    collationKey (folder ++ ['/']) < collationKey t ∧
        collationKey t < collationKey (folder ++ ['0']) ↔
      folder ++ ['/'] <+: t ∧ t ≠ folder ++ ['/'] := by
  have hslash : collationKey (folder ++ ['/']) = collationKey folder ++ [47] :=
    collationKey_concat folder (by decide)
  have hzero : collationKey (folder ++ ['0']) = collationKey folder ++ [48] :=
    collationKey_concat folder (by decide)
  rw [← collationKey_prefix_iff, ne_eq, ← collationKey_injective.eq_iff, hslash, hzero]
  exact List.between_concat_iff ⟨by decide, fun _ h₁ h₂ => by omega⟩ _ _

/-- The query runs the test of `collides` on the rows of the user. -/
theorem hasFileFolderCollision_iff :
    hasFileFolderCollision C users rows path ↔
      ∃ r ∈ rows, ownedBy C users path.pubkey r ∧ collides path.path.asStr r.path := by
  simp only [hasFileFolderCollision, collides, Bool.or_eq_true, List.any_eq_true,
    Bool.and_eq_true, decide_eq_true_iff]
  simp only [descendantPathBounds, between_bytes_iff, between_iff]
  constructor
  · rintro (⟨r, hr, howned, h⟩ | ⟨r, hr, howned, h⟩)
    · exact ⟨r, hr, howned, .inl h⟩
    · exact ⟨r, hr, howned, .inr h⟩
  · rintro ⟨r, hr, howned, h | h⟩
    · exact .inl ⟨r, hr, howned, h⟩
    · exact .inr ⟨r, hr, howned, h⟩

/-- A canonical path ends in one slash at most. -/
theorem endsWith_withoutSlash (p : StoragePath) (hroot : p.asStr ≠ ['/']) :
    Text.endsWith '/' (withoutSlash p.asStr) = false := by
  rw [withoutSlash]
  by_cases hdir : Text.endsWith '/' p.asStr = true
  · rw [if_pos hdir, ← Bool.not_eq_true]
    intro hends
    obtain ⟨front, hfront⟩ := Text.endsWith_iff.1 hdir
    rw [hfront, List.dropLast_concat] at hends
    obtain ⟨front, rfl⟩ := Text.endsWith_iff.1 hends
    -- two slashes at the end enclose an empty segment
    have hnonempty := ne_nil_of_validateSegments (p.validated hroot).1
    rw [hfront] at hnonempty
    cases front with
    | nil => exact hnonempty [] (by decide) rfl
    | cons x front =>
      have hsplit : (front ++ ['/'] ++ ['/']).splitOn '/' = front.splitOn '/' ++ [[]] ++ [[]] := by
        rw [List.splitOn_append_cons_self, List.splitOn_append_cons_self]
        rfl
      refine hnonempty [] ?_ rfl
      rw [List.cons_append, List.cons_append, List.drop_one, List.tail_cons, hsplit,
        List.dropLast_concat]
      simp
  · rw [if_neg hdir]
    exact Bool.eq_false_iff.2 hdir

theorem withoutSlash_of_directory {t : Text} (h : Text.endsWith '/' t) :
    t = withoutSlash t ++ ['/'] := by
  obtain ⟨front, rfl⟩ := Text.endsWith_iff.1 h
  rw [withoutSlash, if_pos h, List.dropLast_concat]

/-- The directories that a path lies in do not depend on a slash at its end. -/
theorem ancestorFilePaths_withoutSlash (t : Text) :
    ancestorFilePaths (withoutSlash t) = ancestorFilePaths t := by
  by_cases h : Text.endsWith '/' t = true
  · conv_rhs => rw [withoutSlash_of_directory h]
    simp [ancestorFilePaths]
  · rw [withoutSlash, if_neg h]

/-- What the check finds for a path with or without a slash at its end. -/
theorem collides_asStr_iff (p : StoragePath) (hroot : p.asStr ≠ ['/']) (existing : StoragePath) :
    collides p.asStr existing.asStr ↔
      existing.asStr ++ ['/'] <+: withoutSlash p.asStr ∨
      (p.isDirectory ∧ existing.asStr = withoutSlash p.asStr) ∨
      (withoutSlash p.asStr ++ ['/'] <+: existing.asStr ∧
        existing.asStr ≠ withoutSlash p.asStr ++ ['/']) := by
  have hancestor : existing.asStr ∈ ancestorFilePaths p.asStr ↔
      existing.asStr ++ ['/'] <+: withoutSlash p.asStr := by
    rw [← ancestorFilePaths_withoutSlash, mem_ancestorFilePaths (endsWith_withoutSlash p hroot)]
    exact and_iff_right existing.ne_nil
  have hself : (Text.endsWith '/' p.asStr = true ∧ p.asStr.dropLast ≠ []) ∧
      existing.asStr = p.asStr.dropLast ↔
        p.isDirectory ∧ existing.asStr = withoutSlash p.asStr := by
    rw [StoragePath.isDirectory]
    constructor
    · rintro ⟨⟨hdir, -⟩, heq⟩
      exact ⟨hdir, by rw [withoutSlash, if_pos hdir, heq]⟩
    · rintro ⟨hdir, heq⟩
      rw [withoutSlash, if_pos hdir] at heq
      exact ⟨⟨hdir, heq ▸ existing.ne_nil⟩, heq⟩
  rw [collides_eq_true, hancestor, hself]
  tauto

theorem concat_isPrefix_iff (folder t : Text) :
    folder ++ ['/'] <+: t ↔ ∃ rest, t = folder ++ '/' :: rest := by
  constructor
  · rintro ⟨rest, rfl⟩
    exact ⟨rest, List.append_assoc _ _ _⟩
  · rintro ⟨rest, rfl⟩
    exact ⟨rest, List.append_assoc _ _ _⟩

theorem strictly_below_iff (folder t : Text) :
    folder ++ ['/'] <+: t ∧ t ≠ folder ++ ['/'] ↔
      ∃ rest, rest ≠ [] ∧ t = folder ++ '/' :: rest := by
  constructor
  · rintro ⟨hbelow, hne⟩
    obtain ⟨rest, rfl⟩ := (concat_isPrefix_iff folder t).1 hbelow
    exact ⟨rest, by simpa using hne, rfl⟩
  · rintro ⟨rest, hne, rfl⟩
    exact ⟨(concat_isPrefix_iff _ _).2 ⟨rest, rfl⟩, by simpa using hne⟩

theorem directoryText_eq (p : StoragePath) : directoryText p = withoutSlash p.asStr ++ ['/'] := by
  rw [directoryText]
  by_cases h : Text.endsWith '/' p.asStr = true
  · rw [if_pos h, ← withoutSlash_of_directory h]
  · rw [if_neg h, withoutSlash, if_neg h]

/-- What the queries about directories find in rows of files: the collision check finds the files
above a path, the file of the name of a directory, and the files below the path; a directory is
there if a file is below it. -/
theorem collision_query_exact (C : Crates) (users : List UserRow) {rows : List EntryRow}
    (hrows : ∀ r ∈ rows, ∃ p : StoragePath, p.isFile ∧ r.path = p.asStr) (path : EntryPath)
    (hroot : path.path.asStr ≠ ['/']) :
    (hasFileFolderCollision C users rows path ↔
      ∃ r ∈ rows, ownedBy C users path.pubkey r ∧
        ((∃ rest, withoutSlash path.path.asStr = r.path ++ '/' :: rest) ∨
          (path.path.isDirectory ∧ r.path = withoutSlash path.path.asStr) ∨
          ∃ rest, rest ≠ [] ∧ r.path = withoutSlash path.path.asStr ++ '/' :: rest)) ∧
    (containsDirectory C users rows path ↔
      ∃ r ∈ rows, ownedBy C users path.pubkey r ∧
        ∃ rest, rest ≠ [] ∧ r.path = withoutSlash path.path.asStr ++ '/' :: rest) := by
  constructor
  · rw [hasFileFolderCollision_iff]
    refine exists_congr fun r => and_congr_right fun hr => and_congr_right fun _ => ?_
    obtain ⟨p, -, hp⟩ := hrows r hr
    rw [hp, collides_asStr_iff _ hroot]
    exact or_congr (concat_isPrefix_iff _ _) (or_congr Iff.rfl (strictly_below_iff _ _))
  · rw [containsDirectory, Bool.not_eq_true', List.isEmpty_eq_false_iff_exists_mem]
    simp only [mem_entriesBelow, directoryText_eq, ownedBy, List.any_eq_true, Bool.and_eq_true,
      decide_eq_true_eq, ← strictly_below_iff]
    constructor
    · rintro ⟨t, r, hr, rfl, hbelow, howned⟩
      refine ⟨r, hr, howned, hbelow, fun heq => ?_⟩
      obtain ⟨p, hfile, hp⟩ := hrows r hr
      rw [StoragePath.isFile, StoragePath.isDirectory, ← hp, heq] at hfile
      simp [Text.endsWith] at hfile
    · rintro ⟨r, hr, howned, hbelow, -⟩
      exact ⟨r.path, r, hr, rfl, hbelow, howned⟩

def sampleUsers : List UserRow := [⟨0, Sample.alice.z32, false, 0, Sample.unlimited⟩]

/-- Files of alice. -/
def sampleRows (paths : List String) : List EntryRow :=
  paths.mapIdx fun i path => ⟨i, 0, path.toList, [], 0, []⟩

/-- The files `/pub/a-old` and `/pub/a0` leave room for `/pub/a/b`, the file `/pub/a` does not. -/
theorem collision_query_sample :
    hasFileFolderCollision Sample.crates.toCrates sampleUsers
        (sampleRows ["/pub/a-old", "/pub/a0"])
        ⟨Sample.alice, ⟨"/pub/a/b".toList, by decide +kernel⟩⟩ = false ∧
      hasFileFolderCollision Sample.crates.toCrates sampleUsers
        (sampleRows ["/pub/a-old", "/pub/a"])
        ⟨Sample.alice, ⟨"/pub/a/b".toList, by decide +kernel⟩⟩ = true := by
  refine ⟨by decide +kernel, (collision_query_exact _ _ ?_ _ (by decide +kernel)).1.2 ?_⟩
  · intro r hr
    simp only [sampleRows, List.mapIdx_cons, List.mapIdx_nil, List.mem_cons, List.not_mem_nil,
      or_false] at hr
    rcases hr with rfl | rfl
    · exact ⟨⟨"/pub/a-old".toList, by decide +kernel⟩, by decide +kernel, rfl⟩
    · exact ⟨⟨"/pub/a".toList, by decide +kernel⟩, by decide +kernel, rfl⟩
  · exact ⟨⟨1, 0, "/pub/a".toList, [], 0, []⟩, by decide +kernel, by decide +kernel,
      .inl ⟨['b'], by decide +kernel⟩⟩

/-! ## Children -/

/-- A path below a directory, cut after its first segment there. -/
def childOf (dir path : Text) : Text := dir ++ firstChild (path.drop dir.length)

/-- The children of a directory, each once. -/
def children (C : Crates) (users : List UserRow) (rows : List EntryRow) (path : EntryPath) :
    List Text :=
  ((entriesBelow C users rows path).map (childOf (directoryText path.path))).dedup

theorem childOf_append (dir rest : Text) : childOf dir (dir ++ rest) = dir ++ firstChild rest := by
  rw [childOf, List.drop_left]

theorem mem_children {t : Text} :
    t ∈ children C users rows path ↔
      ∃ rest, directoryText path.path ++ rest ∈ entriesBelow C users rows path ∧
        t = directoryText path.path ++ firstChild rest := by
  rw [children, List.mem_dedup, List.mem_map]
  constructor
  · rintro ⟨u, hu, rfl⟩
    obtain ⟨-, -, -, ⟨rest, rfl⟩, -⟩ := mem_entriesBelow.1 hu
    exact ⟨rest, hu, childOf_append _ _⟩
  · rintro ⟨rest, hrest, rfl⟩
    exact ⟨_, hrest, childOf_append _ _⟩

/-- A child ends at the first slash, or with the path. -/
theorem firstChild_cases (rest : Text) :
    ('/' ∉ rest ∧ firstChild rest = rest) ∨
      ∃ s more, '/' ∉ s ∧ rest = s ++ '/' :: more ∧ firstChild rest = s ++ ['/'] := by
  by_cases h : '/' ∈ rest
  · obtain ⟨s, more, rfl, hs⟩ := List.eq_append_cons_of_mem h
    refine .inr ⟨s, more, hs, rfl, ?_⟩
    have hsplit := Text.splitInclusive_append (c := '/') (t := s ++ ['/']) (u := more)
      (Text.endsWith_iff.2 ⟨s, rfl⟩)
    rw [Text.splitInclusive_concat hs, List.append_assoc, List.singleton_append] at hsplit
    rw [firstChild, hsplit]
    rfl
  · refine .inl ⟨h, ?_⟩
    cases rest with
    | nil => rfl
    | cons x xs =>
      rw [firstChild, Text.splitInclusive_of_not_mem (by simp) h]
      rfl

/-- The children of a directory are storage paths. -/
theorem validateCanonical_child {dir rest : Text} (h : validateCanonical (dir ++ rest) = .ok ()) :
    validateCanonical (dir ++ firstChild rest) = .ok () := by
  rcases firstChild_cases rest with ⟨-, hchild⟩ | ⟨s, more, -, rfl, hchild⟩
  · rwa [hchild]
  · rw [hchild, ← List.append_assoc]
    rw [← List.append_assoc] at h
    exact validateCanonical_directory h

theorem exists_items (paths : List Text) (h : ∀ t ∈ paths, validateCanonical t = .ok ()) :
    ∃ items : List StoragePath, paths = items.map StoragePath.asStr :=
  ⟨paths.pmap StoragePath.mk h, by simp [List.map_pmap]⟩

theorem canonical_of_mem_entriesBelow (hschema : Schema users rows) {t : Text}
    (ht : t ∈ entriesBelow C users rows path) : validateCanonical t = .ok () := by
  obtain ⟨r, hr, rfl, -⟩ := mem_entriesBelow.1 ht
  exact hschema.canonical r hr

/-- A listing of entries succeeds. -/
theorem exists_listed_deep (reverse : Bool) (hschema : Schema users rows) :
    ∃ items, listed C R users rows false reverse path = .ok items ∧
      orderBy reverse (entriesBelow C users rows path) = items.map StoragePath.asStr := by
  obtain ⟨items, hitems⟩ := exists_items (orderBy reverse (entriesBelow C users rows path))
    fun t ht => canonical_of_mem_entriesBelow hschema ((perm_orderBy reverse _).mem_iff.1 ht)
  exact ⟨items, listed_eq_ok.2 ⟨_, rfl, hitems⟩, hitems⟩

/-- The pattern cuts the entries below the directory after their first segment there. -/
def Cuts (R : RegexpReplace) (dir : Text) (paths : List Text) : Prop :=
  ∀ t ∈ paths, regpath R dir t = .ok (childOf dir t)

/-- A listing of children succeeds if the pattern cuts the entries. -/
theorem exists_listed_shallow (reverse : Bool) (hschema : Schema users rows)
    (hcuts : Cuts R (directoryText path.path) (entriesBelow C users rows path)) :
    ∃ items, listed C R users rows true reverse path = .ok items ∧
      orderBy reverse (children C users rows path) = items.map StoragePath.asStr := by
  have hselected : selected C R users rows true path = .ok (children C users rows path) := by
    refine selected_shallow.2 ⟨_, ?_, rfl⟩
    rw [List.forall₂_map_right_iff, List.forall₂_same]
    exact hcuts
  have hcanonical : ∀ t ∈ children C users rows path, validateCanonical t = .ok () := by
    intro t ht
    obtain ⟨rest, hrest, rfl⟩ := mem_children.1 ht
    exact validateCanonical_child (canonical_of_mem_entriesBelow hschema hrest)
  obtain ⟨items, hitems⟩ := exists_items (orderBy reverse (children C users rows path))
    fun t ht => hcanonical t ((perm_orderBy reverse _).mem_iff.1 ht)
  exact ⟨items, listed_eq_ok.2 ⟨_, hselected, hitems⟩, hitems⟩

/-- The pattern of a directory cuts every file below it after its first segment there. -/
def PatternCuts (R : RegexpReplace) (dir : Text) : Prop :=
  ∀ rest, validateCanonical (dir ++ rest) = .ok () → Text.endsWith '/' (dir ++ rest) = false →
    R (dir ++ rest) (childPattern dir) (childReplacement dir) = .ok (dir ++ firstChild rest)

/-- No file of a user is in a directory that is a file, too. -/
def Apart (rows : List EntryRow) : Prop :=
  ∀ r ∈ rows, ∀ s ∈ rows, r.user = s.user → ¬ r.path ++ ['/'] <+: s.path

theorem cuts_of_patternCuts (hschema : Schema users rows)
    (h : PatternCuts R (directoryText path.path)) :
    Cuts R (directoryText path.path) (entriesBelow C users rows path) := by
  intro t ht
  obtain ⟨r, hr, rfl, ⟨rest, hrest⟩, -⟩ := mem_entriesBelow.1 ht
  rw [← hrest, childOf_append]
  exact h rest (hrest ▸ hschema.canonical r hr) (hrest ▸ hschema.file r hr)

instance (dir : Text) : Decidable (PlainDirectory dir) :=
  List.decidableBAll _ dir

/-- Replaces in a text that starts with a directory without special characters; other directories
match nothing, as `/pub/a+b/` does in Postgres. -/
def plainRegexp : RegexpReplace := fun path _ replacement =>
  let dir := replacement.take (replacement.length - 4)
  match Text.stripStart dir path with
  | some rest => .ok (if PlainDirectory dir then dir ++ firstChild rest else path)
  | none => .ok path

theorem plainRegexp_eq (dir path : Text) :
    plainRegexp path (childPattern dir) (childReplacement dir) =
      match Text.stripStart dir path with
      | some rest => .ok (if PlainDirectory dir then dir ++ firstChild rest else path)
      | none => .ok path := by
  have hdir : (childReplacement dir).take ((childReplacement dir).length - 4) = dir := by
    simp [childReplacement]
  rw [plainRegexp, hdir]

theorem lawful_plainRegexp : RegexpReplace.Lawful plainRegexp where
  replaced dir path out _ h := by
    rw [plainRegexp_eq] at h
    split at h
    · split at h
      · exact .inr (Except.ok.inj h ▸ (List.prefix_append _ _).isInfix)
      · exact .inl (Except.ok.inj h).symm
    · exact .inl (Except.ok.inj h).symm
  plain dir rest hplain := by
    rw [plainRegexp_eq, Text.stripStart_append]
    simp [hplain]

theorem schema_sampleRows {paths : List String}
    (hnodup : (sampleRows paths).Pairwise fun r s => ¬ (r.user = s.user ∧ r.path = s.path))
    (hpaths : ∀ r ∈ sampleRows paths,
      validateCanonical r.path = .ok () ∧ Text.endsWith '/' r.path = false) :
    Schema sampleUsers (sampleRows paths) where
  publicKey u hu v hv _ := by rw [List.mem_singleton.1 hu, List.mem_singleton.1 hv]
  path := hnodup
  canonical r hr := (hpaths r hr).1
  file r hr := (hpaths r hr).2

theorem pub_canonical : validateCanonical "/pub/".toList = .ok () := by decide +kernel

/-- The pages that a client reads by passing the last item of each as the next cursor, up to the
first empty one. -/
inductive Iterates (query : Option EntryPath → Except SqlError (List EntryPath)) :
    Option EntryPath → List (List EntryPath) → Prop
  | done {cursor : Option EntryPath} (h : query cursor = .ok []) : Iterates query cursor []
  | more {cursor : Option EntryPath} {page : List EntryPath} {last : EntryPath}
      {pages : List (List EntryPath)} (h : query cursor = .ok page)
      (hlast : page.getLast? = some last) (hpages : Iterates query (some last) pages) :
      Iterates query cursor (page :: pages)

theorem Iterates.unique {query : Option EntryPath → Except SqlError (List EntryPath)}
    {cursor : Option EntryPath} {pages pages' : List (List EntryPath)}
    (h : Iterates query cursor pages) (h' : Iterates query cursor pages') : pages' = pages := by
  induction h generalizing pages' with
  | done h =>
    cases h' with
    | done => rfl
    | more h' hlast' =>
      obtain rfl := Except.ok.inj (h.symm.trans h')
      cases hlast'
  | more h hlast _ ih =>
    cases h' with
    | done h' =>
      obtain rfl := Except.ok.inj (h'.symm.trans h)
      cases hlast
    | more h' hlast' hpages' =>
      obtain rfl := Except.ok.inj (h.symm.trans h')
      obtain rfl := Option.some.inj (hlast.symm.trans hlast')
      rw [ih hpages']

/-- The query for a page. -/
def pageQuery (C : Crates) (R : RegexpReplace) (users : List UserRow) (rows : List EntryRow)
    (shallow reverse : Bool) (path : EntryPath) (limit : Option ℕ) (cursor : Option EntryPath) :
    Except SqlError (List EntryPath) :=
  if shallow then listShallow C R users rows path limit cursor reverse
  else listDeep C R users rows path limit cursor reverse

theorem pageQuery_eq {items : List StoragePath}
    (hlisted : listed C R users rows shallow reverse path = .ok items) (limit : Option ℕ)
    (cursor : Option EntryPath) :
    pageQuery C R users rows shallow reverse path limit cursor =
      .ok ((Paging.page (pastPath reverse) (Events.effectiveListLimit limit) items
        (cursor.map EntryPath.path)).map (⟨path.pubkey, ·⟩)) := by
  obtain ⟨paths, hselected, hpaths⟩ := listed_eq_ok.1 hlisted
  simp only [pageQuery, query_eq, hselected, page_eq hpaths, bind, Except.bind]
  rfl

theorem iterates_of_walk {items : List StoragePath} {limit : Option ℕ}
    (hlisted : listed C R users rows shallow reverse path = .ok items)
    {cursor : Option StoragePath} {pages : List (List StoragePath)}
    (h : Paging.Walk (pastPath reverse) some (Events.effectiveListLimit limit) items cursor pages) :
    Iterates (pageQuery C R users rows shallow reverse path limit)
      (cursor.map (⟨path.pubkey, ·⟩)) (pages.map (List.map (⟨path.pubkey, ·⟩))) := by
  have hquery : ∀ cursor : Option StoragePath,
      pageQuery C R users rows shallow reverse path limit (cursor.map (⟨path.pubkey, ·⟩)) =
        .ok ((Paging.page (pastPath reverse) (Events.effectiveListLimit limit) items
          cursor).map (⟨path.pubkey, ·⟩)) := by
    intro cursor
    rw [pageQuery_eq hlisted, Option.map_map]
    cases cursor <;> rfl
  induction h with
  | @done cursor h => exact .done (by rw [hquery, h]; rfl)
  | @more cursor x c pages hlast hnext _ ih =>
    cases hnext
    exact .more (hquery cursor) (by rw [List.getLast?_map, hlast]; rfl) ih

/-- The listing of a directory without special characters succeeds. -/
theorem exists_listed (hR : R.Lawful) (hschema : Schema users rows)
    (hplain : PlainDirectory (directoryText path.path)) (shallow reverse : Bool) :
    ∃ items, listed C R users rows shallow reverse path = .ok items := by
  cases shallow with
  | false => exact (exists_listed_deep reverse hschema).imp fun _ h => h.1
  | true =>
    have hcuts : Cuts R (directoryText path.path) (entriesBelow C users rows path) :=
      cuts_of_patternCuts hschema fun rest _ _ => hR.plain _ rest hplain
    exact (exists_listed_shallow reverse hschema hcuts).imp fun _ h => h.1

/-- With a limit of at least one, the pages of a directory without special characters, each read
from the last item of the one before, are the listing without a limit: nothing is skipped, repeated
or out of order. -/
theorem pages_partition_listing (C : Crates) (hR : R.Lawful) (hschema : Schema users rows)
    (path : EntryPath) (hplain : PlainDirectory (directoryText path.path)) (shallow reverse : Bool)
    (limit : Option ℕ) (hlimit : 0 < Events.effectiveListLimit limit) :
    ∃ items, listed C R users rows shallow reverse path = .ok items ∧
      (items.Pairwise fun a b => before reverse a.asStr b.asStr) ∧
      ∃ pages, Iterates (pageQuery C R users rows shallow reverse path limit) none pages ∧
        pages.flatten = items.map (⟨path.pubkey, ·⟩) ∧
        ∀ pages', Iterates (pageQuery C R users rows shallow reverse path limit) none pages' →
          pages' = pages := by
  obtain ⟨items, hlisted⟩ := exists_listed (C := C) hR hschema hplain shallow reverse
  have hsorted := pairwise_of_listed hschema hlisted
  -- an item separates as itself
  have hsep : ∀ x, Paging.EndsPage (Events.effectiveListLimit limit) items x →
      Paging.Separates (pastPath reverse) some items (fun x y => pastPath reverse x y) x :=
    fun x _ => ⟨x, rfl, fun _ _ => Iff.rfl⟩
  have hwalks : (∃ pages, Paging.Walk (pastPath reverse) some (Events.effectiveListLimit limit)
      items none pages ∧ pages.flatten = items) ↔ _ :=
    Paging.exists_walk_iff hlimit hsorted (fun _ _ => before_asymm) fun _ _ _ => before_trans
  obtain ⟨pages, hwalk, hflatten⟩ := hwalks.2 hsep
  have hiterates := iterates_of_walk hlisted hwalk
  refine ⟨items, hlisted, hsorted, _, hiterates, ?_, fun _ => hiterates.unique⟩
  rw [← List.map_flatten, hflatten]

/-- Two entries of one directory, read one by one from its listing of children. -/
theorem pages_partition_sample :
    ∃ items, listed Sample.crates.toCrates plainRegexp sampleUsers
        (sampleRows ["/pub/x/z", "/pub/b", "/pub/x/y"]) true false
        ⟨Sample.alice, ⟨"/pub/".toList, pub_canonical⟩⟩ = .ok items ∧
      ∃ pages, Iterates (pageQuery Sample.crates.toCrates plainRegexp sampleUsers
          (sampleRows ["/pub/x/z", "/pub/b", "/pub/x/y"]) true false
          ⟨Sample.alice, ⟨"/pub/".toList, pub_canonical⟩⟩ (some 1)) none pages ∧
        pages.flatten = items.map (⟨Sample.alice, ·⟩) := by
  have hschema : Schema sampleUsers (sampleRows ["/pub/x/z", "/pub/b", "/pub/x/y"]) :=
    schema_sampleRows (by decide +kernel) (by decide +kernel)
  obtain ⟨items, hlisted, -, pages, hiterates, hflatten, -⟩ :=
    pages_partition_listing Sample.crates.toCrates lawful_plainRegexp hschema
      ⟨Sample.alice, ⟨"/pub/".toList, pub_canonical⟩⟩ (by decide +kernel) true false (some 1)
      (by decide)
  exact ⟨items, hlisted, pages, hiterates, hflatten⟩

end Pubky.Homeserver.Listing
