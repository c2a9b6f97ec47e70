import CloneScan.Fingerprint
import CloneScan.Json.Printer
import CloneScan.Json.Reader
import CloneScan.Language
import CloneScan.Token

/-!
# Cache records

A record holds the tokens and window hashes of one file content, with the parameters they were
made under.  It is stored as JSON and is checked field by field when it is read back; the first
check that fails gives the reason why the record is unusable.
-/

namespace CloneScan

/-- What shaped a record. -/
structure RecordParams where
  language : Language
  dialect : Text
  window : Nat
  normalize : Bool
  deriving DecidableEq, Repr

namespace RecordParams

/-- Whether two records come from the same grammar. -/
def sameDialect (a b : RecordParams) : Bool :=
  a.language == b.language && a.dialect == b.dialect

/-- Whether the window hashes of two records are comparable too. -/
def same (a b : RecordParams) : Bool :=
  a.sameDialect b && a.window == b.window && a.normalize == b.normalize

end RecordParams

/-- The tokens and window hashes of one file content. -/
structure CacheRecord where
  params : RecordParams
  tokens : List Token
  hashes : List Nat
  createdAt : Nat
  deriving DecidableEq, Repr

/-- Why a stored value is no usable record. -/
inductive RecordFault where
  | invalidJson
  | notAnObject
  | schemaVersion (found : Option Json)
  | params
  | grammar
  | createdAt
  | missingLists
  | token (index : Nat)
  | hash (index : Nat)
  | hashCount (expected found : Nat)

namespace CacheRecord

/-- The version of the record format. -/
def schemaVersion : Nat := 2

/-! ## Writing -/

/-- A token as an array of its fields. -/
def tokenJson (t : Token) : Json :=
  .array
    [.string t.text, .string t.normalized, .string t.kind.name, .count t.startLine,
      .count t.startColumn, .count t.endLine, .count t.endColumn]

/-- A record around any parameters. -/
def jsonWith (params : Json) (tokens : List Token) (hashes : List Nat) (createdAt : Json) : Json :=
  .object
    [(Text.ofString "schemaVersion", .count schemaVersion), (Text.ofString "params", params),
      (Text.ofString "tokens", .array (tokens.map tokenJson)),
      (Text.ofString "hashes", .array (hashes.map Json.count)),
      (Text.ofString "createdAt", createdAt)]

/-- The parameters of a record as JSON. -/
def paramsJson (p : RecordParams) : Json :=
  .object
    [(Text.ofString "language", .string p.language.tag), (Text.ofString "dialect", .string p.dialect),
      (Text.ofString "windowSize", .count p.window),
      (Text.ofString "normalize", .bool p.normalize)]

/-- A record as JSON. -/
def toJson (r : CacheRecord) : Json :=
  jsonWith (paramsJson r.params) r.tokens r.hashes (.count r.createdAt)

/-- The stored text of a record. -/
def encode (r : CacheRecord) : Text :=
  r.toJson.render

/-! ## Reading -/

/-- A token from the array of its fields. -/
def tokenOf? (v : Json) : Option Token :=
  match v with
  | .array [.string text, .string normalized, .string kind, a, b, c, d] => do
    let kind ← TokenKind.ofName? kind
    let startLine ← a.count?
    let startColumn ← b.count?
    let endLine ← c.count?
    let endColumn ← d.count?
    some ⟨text, normalized, kind, startLine, startColumn, endLine, endColumn⟩
  | _ => none

/-- Reads items in turn; a failure names the index of the item. -/
def readAll {α : Type} (read : Json → Option α) : Nat → List Json → Except Nat (List α)
  | _, [] => .ok []
  | i, v :: rest =>
    match read v with
    | none => .error i
    | some x =>
      match readAll read (i + 1) rest with
      | .error j => .error j
      | .ok xs => .ok (x :: xs)

/-- A window hash: a count below `2 ^ 32`. -/
def hashOf? (v : Json) : Option Nat :=
  match v.count? with
  | some n => if n ≤ 0xFFFFFFFF then some n else none
  | none => none

/-- A dialect name: one or more small letters. -/
def isDialectName (t : Text) : Bool :=
  !t.isEmpty && t.all Text.isLower

/-- The number of windows of a stream. -/
def windowCount (tokens window : Nat) : Nat :=
  tokens + 1 - window

/-- The window and the normalization of some parameters. -/
def shapeOf? (params : Json) : Option (Nat × Bool) := do
  let window ← (← params.get? "windowSize").count?
  let normalize ← (← params.get? "normalize").bool?
  some (window, normalize)

/-- The language and the dialect of some parameters. -/
def grammarOf? (params : Json) : Option (Language × Text) := do
  let language ← Language.ofTag? (← (← params.get? "language").string?)
  let dialect ← (← params.get? "dialect").string?
  if isDialectName dialect then some (language, dialect) else none

/-- The tokens and hashes of a record whose parameters are known. -/
def readLists (params : RecordParams) (createdAt : Nat) (tokens hashes : List Json) :
    Except RecordFault CacheRecord :=
  match readAll tokenOf? 0 tokens with
  | .error i => .error (.token i)
  | .ok tokens =>
    match readAll hashOf? 0 hashes with
    | .error i => .error (.hash i)
    | .ok hashes =>
      let expected := windowCount tokens.length params.window
      if 0 < params.window && hashes.length != expected then
        .error (.hashCount expected hashes.length)
      else .ok ⟨params, tokens, hashes, createdAt⟩

/-- Checks a stored value. -/
def ofJson (v : Json) : Except RecordFault CacheRecord :=
  match v with
  | .object fields =>
    let field (name : String) : Option Json := Json.getField fields (Text.ofString name)
    match (field "schemaVersion").bind Json.number? with
    | some version =>
      if version != .finite (schemaVersion : Rat) then .error (.schemaVersion (field "schemaVersion"))
      else
        match (field "params").bind shapeOf?, (field "params").bind grammarOf? with
        | none, _ => .error .params
        | some _, none => .error .grammar
        | some (window, normalize), some (language, dialect) =>
          match (field "createdAt").bind Json.count? with
          | none => .error .createdAt
          | some createdAt =>
            match (field "tokens").bind Json.array?, (field "hashes").bind Json.array? with
            | some tokens, some hashes =>
              readLists ⟨language, dialect, window, normalize⟩ createdAt tokens hashes
            | _, _ => .error .missingLists
    | none => .error (.schemaVersion (field "schemaVersion"))
  | _ => .error .notAnObject

/-- Reads a stored text. -/
def decode (t : Text) : Except RecordFault CacheRecord :=
  match Json.parse? t with
  | none => .error .invalidJson
  | some v => ofJson v

/-! ## Making -/

/-- The record of a token stream. -/
def make (params : RecordParams) (tokens : List Token) (now : Nat) : CacheRecord where
  params := params
  tokens := tokens
  hashes := (windowHashes (tokenKeys tokens params.normalize) params.window).map (·.toNat)
  createdAt := now

end CacheRecord

/-- The reason that a fault gives. -/
def RecordFault.reason : RecordFault → Text
  | .invalidJson => Text.ofString "invalid JSON"
  | .notAnObject => Text.ofString "record is not an object"
  | .schemaVersion found =>
    Text.ofString "schema version " ++
      (match found with
        | none => Text.ofString "undefined"
        | some v => v.display) ++
      Text.ofString " != " ++ Text.ofNat CacheRecord.schemaVersion
  | .params => Text.ofString "invalid params"
  | .grammar => Text.ofString "invalid language or dialect"
  | .createdAt => Text.ofString "invalid createdAt"
  | .missingLists => Text.ofString "missing tokens or hashes"
  | .token i => Text.ofString "invalid token at index " ++ Text.ofNat i
  | .hash i => Text.ofString "invalid hash at index " ++ Text.ofNat i
  | .hashCount expected found =>
    Text.ofString "expected " ++ Text.ofNat expected ++ Text.ofString " hashes, found " ++
      Text.ofNat found

end CloneScan
