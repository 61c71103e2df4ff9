import OneCompute.Contracts.Hashing
import OneCompute.Lib.CanonicalJson

/-!
Canonical bytes stand for one value: what is hashed or signed cannot be read as
anything else.
-/

namespace OneCompute

/-- Two values have the same canonical bytes exactly when they are the same up to the
order of the keys of their objects. -/
theorem canonicalBytes_injective {a b : Json} (ha : a.plain = true) (hb : b.plain = true) :
    canonicalBytes a = canonicalBytes b ↔ a.Same b := by
  rw [← Json.dumps_byKeys_iff ha hb]
  constructor
  · exact utf8_inj
  · intro h
    exact congrArg (fun text : String => text.toUTF8.data.toList) h

/-- An input with its keys in two orders. -/
theorem canonicalBytes_injective_keys :
    (Json.obj [("path", .str "main.py"), ("size", .int 12)]).plain = true ∧
    (Json.obj [("size", .int 12), ("path", .str "main.py")]).plain = true ∧
    (canonicalBytes (.obj [("path", .str "main.py"), ("size", .int 12)]) =
        canonicalBytes (.obj [("size", .int 12), ("path", .str "main.py")]) ↔
      Json.Same (.obj [("path", .str "main.py"), ("size", .int 12)])
        (.obj [("size", .int 12), ("path", .str "main.py")])) :=
  ⟨by decide, by decide, canonicalBytes_injective (by decide) (by decide)⟩

end OneCompute
