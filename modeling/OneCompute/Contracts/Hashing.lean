import OneCompute.Lib.Json
import OneCompute.Lib.Sha256

/-!
Canonical hashing for manifests, inputs and results: JSON with sorted keys and no
whitespace, in UTF-8.
-/

namespace OneCompute

def canonicalStyle : Json.Style := { ensureAscii := false, sortKeys := true }

def canonicalBytes (j : Json) : List UInt8 :=
  (Json.dumps canonicalStyle j).toUTF8.data.toList

def sha256Hex (j : Json) : String := Sha256.hexdigest (canonicalBytes j)

theorem utf8_inj {s t : String} (h : s.toUTF8.data.toList = t.toUTF8.data.toList) : s = t := by
  apply String.toByteArray_inj.mp
  apply ByteArray.ext
  exact Array.toList_inj.mp h

theorem canonicalBytes_strings_inj {ss ts : List String} (hlen : ss.length = ts.length)
    (h : canonicalBytes (.arr (ss.map .str)) = canonicalBytes (.arr (ts.map .str))) : ss = ts := by
  apply Json.dumps_strings_inj (show canonicalStyle.ensureAscii = false from rfl) hlen
  exact utf8_inj h

end OneCompute
