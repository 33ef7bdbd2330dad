import AvroBindings.Entries

/-!
# Manifests

Which documents a run reads: named sets, each a list of locations that are loaded in order.

## Main Definitions

* `Manifest` — the sets by name, in order.
* `Manifest.ofFiles` — one set for every file of a list.
-/

namespace AvroBindings

/-- Named sets of locations, in order. -/
abbrev Manifest := Entries (List String)

namespace Manifest

/-- What stands after the last slash of a location. -/
def fileName (location : String) : String :=
  String.ofList (((location.toList.splitOnP (· == '/')).getLast?).getD [])

/-- One set for every file, named for the last part of its path.  Of two files with the same
last part the later takes the place of the earlier. -/
def ofFiles (locations : List String) : Manifest :=
  Entries.ofPairs (locations.map fun location => (fileName location, [location]))

end Manifest

end AvroBindings
