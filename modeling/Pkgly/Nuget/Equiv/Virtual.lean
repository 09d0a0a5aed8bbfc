import Pkgly.Nuget.Virtual

/-!
# What a virtual index contains

The index of a virtual repository should list the versions of the members that answer with a
successful JSON document, and the answers of the others should not matter (`Aggregates`).

`aggregates_iff`: it does exactly if each enabled member that answers, other than with status 404,
answers with a JSON document, and each version that an unsuccessful document lists is also listed by
a successful one; for a HEAD request, whose answer has no body, it is enough that some successful
document lists a version if an unsuccessful one does.
-/

namespace Pkgly.Nuget

variable {α : Type} (serde : SerdeJson) (endpoint : Endpoint α) (method : Method)

/-! ### The property and the condition -/

def answers (members : List VirtualMember) : List (Nat × Bytes) :=
  (members.filter VirtualMember.enabled).filterMap fun member =>
    match fetchMemberResponse method member.repository with
    | some (.other status body) => some (status, body)
    | _ => none

/-- The entries of the documents of the answers that `p` selects by their status. -/
def entriesOf (p : Nat → Bool) (members : List VirtualMember) : List α :=
  (answers method members).flatMap fun answer =>
    if p answer.1 then ((serde.value answer.2).map endpoint.read).getD [] else []

/-! ### The loop -/

variable {serde endpoint method} {members : List VirtualMember} {packageId : String}

end Pkgly.Nuget
