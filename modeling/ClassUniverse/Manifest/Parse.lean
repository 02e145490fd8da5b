import ClassUniverse.Manifest.Binary
import ClassUniverse.Manifest.Plain

/-!
# Reading a manifest in either form
-/

namespace ClassUniverse.ManifestLevels

open Manifest

/-- The levels in a manifest, binary or plain; a broken binary manifest names none. -/
def parse (bytes : List UInt8) : ManifestLevels :=
  if isBinary bytes then (binaryLevels? bytes).getD {}
  else plainLevels (Text.decodeLossy bytes)

end ClassUniverse.ManifestLevels
