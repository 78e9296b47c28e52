import Schemata.Fingerprint.Base62
import Schemata.Fingerprint.Digest

/-!
Fingerprints of texts, by which an input that has not changed is recognised.
-/
namespace Schemata.Fingerprint

def content (text : String) : String :=
  String.ofList (Base62.encode (Digest.xxh64 0 text.toUTF8))

/-- The fingerprint of a text together with the options that shape its output. -/
def generation (text options : String) : String :=
  content (text ++ "\x00" ++ options)

end Schemata.Fingerprint
