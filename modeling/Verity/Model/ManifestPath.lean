import Verity.Model.Float64
import Verity.Model.Json

/-!
# Dot-paths

The expression language of a source manifest: `$now()`, or a path such as
`data.team.members[].id` into the payload. A path is text that is parsed at validation and again
at run time; its evaluation selects a list of values, and a scalar context wants exactly one.
-/

set_option autoImplicit false

namespace Verity.Model

/-! ## The limits

SOURCE: verity-manifest/src/lib.rs:70-91 -/

namespace Limits

def maxManifestBytes : Nat := 64 * 1024
def maxEntities : Nat := 64
def maxMapFields : Nat := 128
def maxExprChars : Nat := 512
def maxPathSegments : Nat := 32
def maxArrayIndex : Nat := 10000
def maxPayloadDepth : Nat := 64
def maxValueBytes : Nat := 64 * 1024
def maxOutputBytes : Nat := 512 * 1024
def maxPrincipals : Nat := 1024

end Limits

/-! ## Syntax -/

/-- SOURCE: path.rs:22-34 -/
inductive PathError where
  | tooLong
  | tooDeep
  | empty
  | badSyntax (raw : String)
  | indexTooLarge
deriving DecidableEq, Repr

/-- The text of an error; `debug` is `{:?}` of a string. -/
def PathError.text (debug : String → String) : PathError → String
  | .tooLong => "expression exceeds " ++ toString Limits.maxExprChars ++ " chars"
  | .tooDeep => "path exceeds " ++ toString Limits.maxPathSegments ++ " segments"
  | .empty => "empty path"
  | .badSyntax raw => "bad path syntax at " ++ debug raw
  | .indexTooLarge => "array index exceeds " ++ toString Limits.maxArrayIndex

/-- SOURCE: path.rs:36-40 -/
inductive Accessor where
  | index (i : Nat)
  | all
deriving DecidableEq, Repr

/-- SOURCE: path.rs:42-46 -/
structure Segment where
  key : String
  accessors : List Accessor
deriving DecidableEq, Repr

/-- A parsed dot-path. SOURCE: path.rs:50-54 -/
structure DotPath where
  segments : List Segment
  text : String
deriving DecidableEq, Repr

/-- A mapping expression. SOURCE: path.rs:58-62 -/
inductive MapExpr where
  | now
  | path (p : DotPath)
deriving DecidableEq, Repr

/-! ## Parsing -/

/-- `str::parse::<usize>`: an optional `+`, then digits that denote a 64-bit number. -/
def parseUsize (cs : List Char) : Option Nat :=
  let digits :=
    match cs with
    | '+' :: digits => digits
    | digits => digits
  if digits ≠ [] ∧ digits.all isAsciiDigit ∧ decimal digits < 2 ^ 64 then some (decimal digits)
  else none

/-- `char::is_ascii_alphanumeric`. -/
def isAsciiAlphanumeric (c : Char) : Bool :=
  isAsciiDigit c || decide ('a' ≤ c ∧ c ≤ 'z') || decide ('A' ≤ c ∧ c ≤ 'Z')

def isKeyChar (c : Char) : Bool := isAsciiAlphanumeric c || c == '_' || c == '$' || c == '-'

/-- What stands between two brackets. SOURCE: path.rs:179-189 -/
def parseAccessor (raw : String) (inside : List Char) : Except PathError Accessor :=
  if inside = [] then .ok .all
  else
    match parseUsize inside with
    | none => .error (.badSyntax raw)
    | some idx => if Limits.maxArrayIndex < idx then .error .indexTooLarge else .ok (.index idx)

/-- The accessor loop, over what follows the key split at `]`: a part with a bracket behind it is
an accessor, and nothing may follow the last bracket. SOURCE: path.rs:171-190 -/
def parseAccessors (raw : String) : List (List Char) → Except PathError (List Accessor)
  | [] => .ok []
  | [last] => if last = [] then .ok [] else .error (.badSyntax raw)
  | part :: next :: parts =>
    match part with
    | '[' :: inside =>
      (parseAccessor raw inside).bind fun accessor =>
        (parseAccessors raw (next :: parts)).map fun accessors => accessor :: accessors
    | _ => .error (.badSyntax raw)

/-- SOURCE: path.rs:157-195 -/
def parseSegment (raw : String) : Except PathError Segment :=
  let key := raw.toList.takeWhile (· != '[')
  let rest := raw.toList.dropWhile (· != '[')
  if key = [] ∨ ¬ key.all isKeyChar then .error (.badSyntax raw)
  else
    (parseAccessors raw (rest.splitOn ']')).map fun accessors => ⟨String.ofList key, accessors⟩

/-- The loop over the segments, with those parsed so far. SOURCE: path.rs:88-94 -/
def parseSegments (segments : List Segment) : List String → Except PathError (List Segment)
  | [] => .ok segments
  | raw :: raws =>
    if Limits.maxPathSegments ≤ segments.length then .error .tooDeep
    else (parseSegment raw).bind fun segment => parseSegments (segments ++ [segment]) raws

/-- SOURCE: path.rs:80-99 -/
def DotPath.parse (s : String) : Except PathError DotPath :=
  let s := trim s
  if s = "" then .error .empty
  else if Limits.maxExprChars < s.length then .error .tooLong
  else (parseSegments [] (splitAtChar '.' s)).map fun segments => ⟨segments, s⟩

/-- SOURCE: path.rs:65-71 -/
def MapExpr.parse (s : String) : Except PathError MapExpr :=
  let s := trim s
  if s = "$now()" then .ok .now else (DotPath.parse s).map .path

/-! ## Evaluation -/

/-- `Value::get` by index: an element of an array, nothing of any other value. -/
def Json.getIndex (v : Json) (i : Nat) : Option Json :=
  match v with
  | .arr xs => xs[i]?
  | _ => none

/-- SOURCE: path.rs:119-130 -/
def Accessor.widen (accessor : Accessor) (hits : List Json) : List Json :=
  match accessor with
  | .index i => hits.filterMap fun hit => hit.getIndex i
  | .all => hits.flatMap fun hit => hit.asArray.getD []

/-- SOURCE: path.rs:112-133 -/
def Segment.eval (segment : Segment) (value : Json) : List Json :=
  match value.get segment.key with
  | none => []
  | some child => segment.accessors.foldl (fun hits accessor => accessor.widen hits) [child]

/-- The walk, segment by segment, until nothing is selected. SOURCE: path.rs:108-139 -/
def evalSegments : List Segment → List Json → List Json
  | [], current => current
  | segment :: segments, current =>
    let next := current.flatMap segment.eval
    if next.isEmpty then next else evalSegments segments next

/-- SOURCE: path.rs:107-140 -/
def DotPath.eval (path : DotPath) (root : Json) : List Json := evalSegments path.segments [root]

/-- Exactly one value. SOURCE: path.rs:144-150 -/
def DotPath.evalScalar (path : DotPath) (root : Json) : Option Json :=
  match path.eval root with
  | [one] => some one
  | _ => none

/-! ## The depth of a payload -/

namespace Json

/-- The values directly inside a value. -/
def children : Json → List Json
  | arr xs => xs
  | obj kvs => kvs.map Prod.snd
  | _ => []

mutual

/-- The number of values in a value, itself included. -/
def nodes : Json → Nat
  | arr xs => 1 + nodesList xs
  | obj kvs => 1 + nodesEntries kvs
  | _ => 1

def nodesList : List Json → Nat
  | [] => 0
  | x :: xs => x.nodes + nodesList xs

def nodesEntries : List (String × Json) → Nat
  | [] => 0
  | (_, x) :: xs => x.nodes + nodesEntries xs

end

theorem nodesList_eq_sum (xs : List Json) : nodesList xs = (xs.map nodes).sum := by
  induction xs with
  | nil => rfl
  | cons x xs ih => simp [nodesList, ih]

theorem nodesEntries_eq_sum (kvs : List (String × Json)) :
    nodesEntries kvs = ((kvs.map Prod.snd).map nodes).sum := by
  induction kvs with
  | nil => rfl
  | cons kv kvs ih => simp [nodesEntries, ih]

theorem nodes_eq (v : Json) : v.nodes = 1 + (v.children.map nodes).sum := by
  cases v with
  | arr xs => simp [nodes, children, nodesList_eq_sum]
  | obj kvs => simp only [nodes, children, nodesEntries_eq_sum]
  | null | bool _ | posInt _ | negInt _ | float _ | str _ => rfl

end Json

/-- The values still to visit, with their depths. -/
def pendingNodes (stack : List (Json × Nat)) : Nat := (stack.map fun p => p.1.nodes).sum

/-- The loop of `valueDepth`; the top of the stack is its head. SOURCE: path.rs:202-212 -/
def depthLoop (stack : List (Json × Nat)) (depth : Nat) : Nat :=
  match stack with
  | [] => depth
  | (value, d) :: stack =>
    let depth := max depth d
    if Limits.maxPayloadDepth < d then d
    else depthLoop ((value.children.reverse.map fun child => (child, d + 1)) ++ stack) depth
termination_by pendingNodes stack
decreasing_by
  simp only [pendingNodes, List.map_append, List.map_map, Function.comp_def, List.sum_append,
    List.map_cons, List.sum_cons, List.map_reverse, List.sum_reverse]
  have hchildren : value.nodes = 1 + (value.children.map fun child => child.nodes).sum :=
    value.nodes_eq
  omega

/-- The nesting depth of a payload; above the cap the exact depth does not matter.
SOURCE: path.rs:198-214 -/
def valueDepth (v : Json) : Nat := depthLoop [(v, 1)] 0

end Verity.Model
