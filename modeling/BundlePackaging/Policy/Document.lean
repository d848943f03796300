import BundlePackaging.Policy.Table
import BundlePackaging.Toml.Document

/-!
# Policies from configuration documents

A policy can be written as a TOML document, in a text or in a file.

## Main definitions

* `Policy.ofText`, `Policy.ofFile` — the policy of a text or a file, or why there is none.
-/

namespace BundlePackaging
namespace Policy

/-- The policy that a text sets. -/
def ofText (text : String) : Except PolicyFault Policy := ofTextBy Toml.parse? text

/-- The policy that a file sets. -/
def ofFile (disk : Disk) (name : String) : Except PolicyFault Policy :=
  ofFileBy Toml.parse? disk name

end Policy
end BundlePackaging
