import Mathlib.Data.List.DropRight
import OneCompute.Contracts.Models
import OneCompute.Lib.Json
import OneCompute.Lib.PosixPath

/-!
The declarative policy of a sandbox: what a job may write. The payload is to lie in
the work directory and to be read only.
-/

namespace OneCompute.Isolation
open PosixPath

/-- What the policy takes from the process: its directory, the home directory of a
user name after `~`, and the identifier made of a path. -/
structure Surroundings where
  cwd : FullPath
  expandUser : List Char → List Char
  stableJobId : FullPath → String

variable (S : Surroundings)

/-- `Path.expanduser`; `none` is the `RuntimeError`. -/
def expandHome (path : PurePath) : Option PurePath :=
  match path.absolute, path.parts with
  | false, first :: rest =>
      if first.1.head? = some '~' then
        let home := S.expandUser first.1
        if home.head? = some '~' then none
        else some ⟨(parse home).absolute, (parse home).parts ++ rest⟩
      else some path
  | _, _ => some path

/-- `Path.resolve` -/
def normalise (path : PurePath) : FullPath :=
  (if path.absolute then FullPath.root else S.cwd).walk path.parts

def resolvePath (path : PurePath) : Option FullPath := (expandHome S path).map (normalise S)

/-! ## Directories and what is below them -/

def isSeparator (c : Char) : Bool := c == '\\' || c == '/'

/-- `text.rstrip("\\/")` -/
def trimmed (d : FullPath) : List Char := d.text.rdropWhile isSeparator

def isSameOrChild (candidate directory : FullPath) : Bool :=
  if candidate.Within directory then true
  else candidate.text == trimmed directory ||
    (trimmed directory ++ ['/']).isPrefixOf candidate.text

/-! ## The policy -/

def src : Part := ⟨['s', 'r', 'c'], by decide⟩

/-- `Path(payload_subdir or "src")` -/
def requestedPath (payloadSubdir : String) : PurePath :=
  if payloadSubdir = "" then ⟨false, [src]⟩ else parse payloadSubdir.toList

def payloadPath (work : FullPath) (payloadSubdir : String) : Option FullPath := do
  let requested := requestedPath payloadSubdir
  let payload ← resolvePath S (work.pure.join requested)
  if isSameOrChild payload work then return payload
  else resolvePath S (work.pure.join ⟨false, [requested.name.getD src]⟩)

def pathJson (d : FullPath) : Json := .str (String.ofList d.text)

/-- `_AccessRule.to_dict` -/
def accessRule (d : FullPath) (access : List String) (allowDelete allowRename : Bool) :
    List (String × Json) :=
  [("effect", .str "allow"), ("path", pathJson d), ("access", .arr (access.map .str)),
    ("allow_delete", .bool allowDelete), ("allow_rename", .bool allowRename)]

def networkMode (limits : Limits) (allowNetwork : Option Bool) : String :=
  match allowNetwork with
  | some allowed => if allowed then "host" else "none"
  | none => if limits.network = .host then "host" else "none"

def location (kind : String) (path : Json) : Json := .obj [("kind", .str kind), ("path", path)]

/-- `Path.home()` and the directories of the system. -/
def protectedLocations : Option Json := do
  let home ← expandHome S ⟨false, [⟨['~'], by decide⟩]⟩
  let home ← resolvePath S home
  return .arr [location "home" (pathJson home), location "user_profile" (pathJson home),
    location "network_share" (.str "\\\\*"), location "system_root" (.str "/"),
    location "system_config" (.str "/etc"), location "system_bin" (.str "/usr")]

def filesystemJson (work payload : FullPath) (locations : Json) : Json :=
  .obj [("default", .str "deny"), ("work_dir", pathJson work), ("payload_dir", pathJson payload),
    ("rules", .arr [.obj (accessRule payload ["read"] false false),
      .obj (accessRule work ["read", "write"] true true)]),
    ("deny_rules", .arr [
      .obj [("effect", .str "deny"), ("scope", .str "outside_work_dir"), ("path", pathJson work),
        ("access", .arr [.str "delete", .str "rename"])],
      .obj [("effect", .str "deny"), ("scope", .str "protected_locations"),
        ("locations", locations),
        ("access", .arr [.str "read", .str "write", .str "delete", .str "rename"]),
        ("except_under", pathJson work)]])]

def buildPolicy (workDir : String) (limits : Limits) (payloadSubdir : String)
    (allowNetwork : Option Bool) (jobId : Option String) : Option (List (String × Json)) := do
  let work ← resolvePath S (parse workDir.toList)
  let payload ← payloadPath S work payloadSubdir
  let job := jobId.getD (S.stableJobId work)
  let mode := networkMode limits allowNetwork
  let locations ← protectedLocations S
  return [("schema", .str "mxc-policy/v1"), ("version", .int 1), ("default", .str "deny"),
    ("job_id", .str job),
    ("identity", .obj [("job_id", .str job), ("kind", .str "onecompute-job"),
      ("principal_type", .str "job"), ("privilege", .str "low_privilege")]),
    ("filesystem", filesystemJson work payload locations),
    ("privileges", .obj [("elevation", .str "deny"), ("allow_new_privileges", .bool false),
      ("run_as", .str "low_privilege"), ("allow_admin", .bool false)]),
    ("network", .obj [("default", .str "deny"), ("mode", .str mode),
      ("allowed", .bool (mode == "host"))])]

/-! ## What the policy permits -/

/-- The path of an allow rule. -/
def rulePath (rule : List (String × Json)) : Option (List Char) :=
  match (Json.lookup rule "effect").getD (.str "allow"), Json.lookup rule "path" with
  | .str "allow", some (.str path) => some path.toList
  | _, _ => none

/-- The rules for the path, with the lengths of their own paths. -/
def matchedRules (path : FullPath) : List Json → Option (List (Nat × List (String × Json)))
  | [] => some []
  | .obj rule :: rules =>
      match rulePath rule with
      | none => matchedRules path rules
      | some directory => do
          let resolved ← resolvePath S (parse directory)
          let matched ← matchedRules path rules
          return if isSameOrChild path resolved then (directory.length, rule) :: matched
            else matched
  | _ :: rules => matchedRules path rules

/-- The first of the longest. -/
def bestRule : List (Nat × List (String × Json)) → Option (Nat × List (String × Json))
  | [] => none
  | rule :: rules => some (rules.foldl (fun best next => if best.1 < next.1 then next else best) rule)

def permitsAccess (access : Json) : Bool :=
  match access with
  | .arr items => items.any fun item => match item with
      | .str mode => mode == "write"
      | _ => false
  | _ => false

/-- What the best of the rules for the path gives access to. -/
def rulesPermit (path : FullPath) (rules : List Json) : Option Bool := do
  let matched ← matchedRules S path rules
  return match bestRule matched with
    | none => false
    | some best => permitsAccess ((Json.lookup best.2 "access").getD (.arr []))

/-- `none` is the `RuntimeError` of a path that cannot be resolved. -/
def permitsWrite (policy : List (String × Json)) (somePath : String) : Option Bool :=
  match Json.lookup policy "filesystem" with
  | some (.obj fs) => do
      let path ← resolvePath S (parse somePath.toList)
      match Json.lookup fs "rules" with
      | some (.arr rules) => rulesPermit S path rules
      | _ => return false
  | _ => some false

/-- The directory that a field of the policy names. -/
def policyDir (policy : List (String × Json)) (field : String) : Option FullPath :=
  match Json.lookup policy "filesystem" with
  | some (.obj fs) =>
      match Json.lookup fs field with
      | some (.str path) => resolvePath S (parse path.toList)
      | _ => none
  | _ => none

end OneCompute.Isolation
