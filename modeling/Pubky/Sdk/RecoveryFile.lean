import Pubky.Sdk.Narrowing

/-!
# Recovery files

`pubky-common/src/recovery_file.rs`: a spec line, a newline, and the secret key of a user, encrypted
with a key that Argon2id derives from a passphrase.
-/

namespace Pubky.Sdk

variable {V : Type} (F : FlowCrates V) (argon2id : Bytes → Bytes → Secret)

end Pubky.Sdk
