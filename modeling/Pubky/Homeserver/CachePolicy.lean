import Pubky.Homeserver.Storage.Sample

/-!
# Caching of private responses

`client_server/cache_policy.rs`: the layer around the tenant routes. It looks at the raw path of a
request, or at the path that the storage route has found in it, before the handler reads the path
on its own. Whatever way a path is spelled, if the handler addresses something private then the
layer knows it (`isPrivate_of_target`), and the response is not left to shared caches
(`private_response_not_shared`).

The layers outside this one append to `Vary` and do not touch the other fields named here.
-/

namespace Pubky.Homeserver

/-! ## Fields of a response -/

namespace Response

/-- The values of a field. -/
def getAll (r : Response) (name : String) : List Text :=
  (r.headers.filter fun f => f.1 = name.toList).map Prod.snd

def containsKey (r : Response) (name : String) : Bool :=
  r.headers.any fun f => f.1 = name.toList

/-- Drop all values of a field. -/
def remove (r : Response) (name : String) : Response :=
  { r with headers := r.headers.filter fun f => f.1 ≠ name.toList }

/-- Replace all values of a field by one. -/
def insert (r : Response) (name : String) (value : Text) : Response :=
  { r with headers := (r.remove name).headers ++ [(name.toList, value)] }

variable {r : Response} {name other : String} {value : Text}

@[simp] theorem remove_status : (r.remove name).status = r.status := rfl

@[simp] theorem insert_status : (r.insert name value).status = r.status := rfl

@[simp] theorem getAll_remove_self : (r.remove name).getAll name = [] := by
  simp [getAll, remove, List.filter_filter]

theorem getAll_remove_of_ne (h : name.toList ≠ other.toList) :
    (r.remove other).getAll name = r.getAll name := by
  rw [getAll, remove, List.filter_filter]
  congr 1
  refine List.filter_congr fun f _ => ?_
  by_cases hf : f.1 = name.toList
  · simp [hf, h]
  · simp [hf]

@[simp] theorem getAll_insert_self : (r.insert name value).getAll name = [value] := by
  simp [getAll, insert, remove, List.filter_filter]

theorem getAll_insert_of_ne (h : name.toList ≠ other.toList) :
    (r.insert other value).getAll name = r.getAll name := by
  rw [← getAll_remove_of_ne (r := r) h, getAll, getAll, insert, List.filter_append]
  simp [h.symm]

end Response

/-! ## The layer -/

section

variable (C : StorageCrates)

/-- Whether the raw path of a request, decoded or normalized, is private. -/
def isPrivateTenantRequestPath (rawPath : Text) : Bool :=
  if privateRoot.isPrefixOf rawPath then true
  else
    let decoded := (C.percentDecode rawPath).getD rawPath
    if privateRoot.isPrefixOf decoded then true
    else
      match StoragePath.normalize decoded with
      | .ok path => privateRoot.isPrefixOf path.asStr
      | .error _ => false

/-- Only a served or unchanged file may be kept for revalidation. -/
def privateCacheControl (response : Response) : Text :=
  if (response.status = 200 ∨ response.status = 304) ∧ response.containsKey "etag" then
    "private, no-cache".toList
  else "no-store".toList

def applyPrivateCacheHeaders (response : Response) (cacheControl : Text) (varyOnPubkyHost : Bool) :
    Response :=
  (response.insert "cache-control" cacheControl).insert "vary"
    (if varyOnPubkyHost then "pubky-host, Authorization, Cookie".toList
      else "Authorization, Cookie".toList)

def removeValidators (response : Response) : Response :=
  (response.remove "etag").remove "last-modified"

/-- What the layer makes of the response of a handler. -/
def privateCachePolicy (tenant : Option RequestTenant) (requestPath : Text) (response : Response) :
    Response :=
  let storagePath := tenant.bind RequestTenant.storagePath
  let path := (storagePath.map StoragePath.asStr).getD requestPath
  if isPrivateTenantRequestPath C path then
    let response' := applyPrivateCacheHeaders response (privateCacheControl response)
      storagePath.isNone
    if 400 ≤ response'.status then removeValidators response' else response'
  else response

end

/-! ## Private paths -/

variable {C : StorageCrates} {head : RequestHead} {tenant : Option RequestTenant} {route : Route}
  {e : EntryPath} {matched : Text}

/-- What a handler on the deprecated route addresses, read from the whole raw path. -/
theorem normalize_of_readTarget (hdecode : C.percentDecode = percentDecodeUtf8)
    (hroute : matchRoute head.rawPath = some (.legacy matched))
    (h : readTarget C tenant (.legacy matched) = .ok e) :
    ∃ decoded, C.percentDecode head.rawPath = some decoded ∧
      StoragePath.normalize decoded = .ok e.path := by
  obtain ⟨t, -, h⟩ := Except.bind_ok_iff.1 h
  obtain ⟨decoded, hdecoded, h⟩ := Except.bind_ok_iff.1 h
  obtain ⟨path, hpath, h⟩ := Except.bind_ok_iff.1 h
  cases h
  have hraw := matchRoute_eq_legacy hroute
  refine ⟨'/' :: decoded, ?_, ?_⟩
  · have hdecoded := Option.okOr_eq_ok.1 hdecoded
    rw [hdecode] at hdecoded ⊢
    rw [hraw, percentDecodeUtf8_cons_slash hdecoded]
  · have hpath := Option.okOr_eq_ok.1 hpath
    rw [webDavPathAxum] at hpath
    cases hnormal : StoragePath.normalize ('/' :: decoded) with
    | error err => simp [hnormal, Except.toOption] at hpath
    | ok p =>
      rw [hnormal] at hpath
      rw [Option.some.inj hpath]

theorem isPrivate_of_normalize {rawPath decoded : Text} {path : StoragePath}
    (hdecode : C.percentDecode rawPath = some decoded)
    (hpath : StoragePath.normalize decoded = .ok path) (hprivate : privateRoot <+: path.asStr) :
    isPrivateTenantRequestPath C rawPath = true := by
  rw [isPrivateTenantRequestPath]
  simp only [hdecode, Option.getD_some, hpath, List.isPrefixOf_iff_prefix.2 hprivate]
  simp

/-- A request is known to be private however its path is spelled. -/
theorem isPrivate_of_target (hdecode : C.percentDecode = percentDecodeUtf8)
    (hempty : C.fromZ32 [] = none) (htenant : RequestTenant.fromRequest C head = .ok tenant)
    (hroute : matchRoute head.rawPath = some route) (h : readTarget C tenant route = .ok e)
    (hprivate : privateRoot <+: e.path.asStr) :
    isPrivateTenantRequestPath C (((tenant.bind RequestTenant.storagePath).map
      StoragePath.asStr).getD head.rawPath) = true := by
  rw [storagePath_of_readTarget hempty htenant hroute h]
  cases route with
  | storage =>
    rw [if_pos rfl, Option.map_some, Option.getD_some, isPrivateTenantRequestPath,
      if_pos (List.isPrefixOf_iff_prefix.2 hprivate)]
  | legacy matched =>
    rw [if_neg nofun, Option.map_none, Option.getD_none]
    obtain ⟨decoded, hdecoded, hpath⟩ := normalize_of_readTarget hdecode hroute h
    exact isPrivate_of_normalize hdecoded hpath hprivate

/-! ## Private responses -/

theorem privateCacheControl_cases (response : Response) :
    privateCacheControl response = "no-store".toList ∨
      privateCacheControl response = "private, no-cache".toList := by
  rw [privateCacheControl]
  split
  · exact .inr rfl
  · exact .inl rfl

theorem getAll_removeValidators {response : Response} {name : String}
    (hetag : name.toList ≠ "etag".toList) (hmodified : name.toList ≠ "last-modified".toList) :
    (removeValidators response).getAll name = response.getAll name := by
  rw [removeValidators, Response.getAll_remove_of_ne hmodified, Response.getAll_remove_of_ne hetag]

theorem removeValidators_removes (response : Response) :
    (removeValidators response).getAll "etag" = [] ∧
      (removeValidators response).getAll "last-modified" = [] := by
  constructor
  · rw [removeValidators, Response.getAll_remove_of_ne (by decide), Response.getAll_remove_self]
  · rw [removeValidators, Response.getAll_remove_self]

/-- If a handler addresses something private, its response is not left to shared caches, whatever
it is. -/
theorem private_response_not_shared (hdecode : C.percentDecode = percentDecodeUtf8)
    (hempty : C.fromZ32 [] = none) (htenant : RequestTenant.fromRequest C head = .ok tenant)
    (hroute : matchRoute head.rawPath = some route)
    (htarget : readTarget C tenant route = .ok e ∨ Storage.routeTarget C tenant route = .ok e)
    (hprivate : privateRoot <+: e.path.asStr) (response : Response) :
    let answer := privateCachePolicy C tenant head.rawPath response
    (answer.getAll "cache-control" = ["no-store".toList] ∨
      answer.getAll "cache-control" = ["private, no-cache".toList]) ∧
    answer.getAll "vary" = [if route = .storage then "Authorization, Cookie".toList
      else "pubky-host, Authorization, Cookie".toList] ∧
    (400 ≤ answer.status → answer.getAll "etag" = [] ∧ answer.getAll "last-modified" = []) := by
  have h := htarget.elim id Storage.readTarget_of_routeTarget
  have hpath := storagePath_of_readTarget hempty htenant hroute h
  have hknown := isPrivate_of_target hdecode hempty htenant hroute h hprivate
  have hhost : (tenant.bind RequestTenant.storagePath).isNone = !decide (route = .storage) := by
    rw [hpath]
    by_cases hstorage : route = .storage <;> simp [hstorage]
  have hvary : (if (!decide (route = .storage)) = true then "pubky-host, Authorization, Cookie".toList
      else "Authorization, Cookie".toList) = if route = .storage then "Authorization, Cookie".toList
      else "pubky-host, Authorization, Cookie".toList := by
    by_cases hstorage : route = .storage <;> simp [hstorage]
  dsimp only
  rw [privateCachePolicy]
  simp only [hknown, if_true, hhost]
  set response' := applyPrivateCacheHeaders response (privateCacheControl response)
    (!decide (route = .storage)) with hresponse
  have hcontrol : response'.getAll "cache-control" = [privateCacheControl response] := by
    rw [hresponse, applyPrivateCacheHeaders, Response.getAll_insert_of_ne (by decide),
      Response.getAll_insert_self]
  have hvary' : response'.getAll "vary" = [if route = .storage then "Authorization, Cookie".toList
      else "pubky-host, Authorization, Cookie".toList] := by
    rw [hresponse, applyPrivateCacheHeaders, Response.getAll_insert_self, hvary]
  by_cases hstatus : 400 ≤ response'.status
  · rw [if_pos hstatus, getAll_removeValidators (by decide) (by decide),
      getAll_removeValidators (by decide) (by decide), hcontrol, hvary']
    exact ⟨by simpa using privateCacheControl_cases response, rfl,
      fun _ => removeValidators_removes response'⟩
  · rw [if_neg hstatus, hcontrol, hvary']
    exact ⟨by simpa using privateCacheControl_cases response, rfl,
      fun hfailed => absurd hfailed hstatus⟩

open Storage.Sample in
/-- The file `/priv/a` of alice does not exist; its path is spelled with escaped dots. -/
theorem private_response_not_shared_sample :
    let head : RequestHead := ⟨"/pub/%2e%2E//priv/a".toList, none,
      ⟨[("pubky-host".toList, some alice.z32)]⟩⟩
    let response : Response := ⟨404, [("etag".toList, "\"a\"".toList)], []⟩
    readTarget decodingCrates (some (.legacy alice)) (.legacy "pub/%2e%2E//priv/a".toList) =
      .ok ⟨alice, ⟨"/priv/a".toList, by decide⟩⟩ ∧
    (privateCachePolicy decodingCrates (some (.legacy alice)) head.rawPath response).getAll "vary" =
      ["pubky-host, Authorization, Cookie".toList] ∧
    (privateCachePolicy decodingCrates (some (.legacy alice)) head.rawPath response).getAll "etag" = [] := by
  intro head response
  have htarget : readTarget decodingCrates (some (.legacy alice)) (.legacy "pub/%2e%2E//priv/a".toList) =
      .ok ⟨alice, ⟨"/priv/a".toList, by decide⟩⟩ := by decide +kernel
  have htenant : RequestTenant.fromRequest decodingCrates head = .ok (some (.legacy alice)) := by
    decide +kernel
  obtain ⟨-, hvary, hvalidators⟩ := private_response_not_shared rfl (by decide +kernel) htenant
    (by decide +kernel) (.inl htarget) (by decide) response
  exact ⟨htarget, hvary, (hvalidators (by decide +kernel)).1⟩

end Pubky.Homeserver
