import Pubky.Homeserver.Storage.Sample

/-!
# The chunks of an upload

`FileMetadataBuilder::update` is fed the chunks of an upload as they come. The hash and the length
do not depend on where the chunks are cut. The content type does: `infer` is asked about a chunk
only while no byte has been counted, so it sees the first chunk that is not empty and nothing of
what follows.
-/

namespace Pubky.Homeserver.Storage

variable {C : StorageCrates}

namespace Sample

end Sample

end Pubky.Homeserver.Storage
