import CloneScan.Text

/-!
# Languages and dialects

The languages that can be tokenized, the dialect in which a file of a language is parsed, and the
file extension that decides both.
-/

namespace CloneScan

/-- A language with a tokenizer. -/
inductive Language where
  | typescript
  | javascript
  | python
  | go
  | ruby
  deriving DecidableEq, Repr

namespace Language

/-- Every language, in the order in which they are listed to users. -/
def all : List Language :=
  [.typescript, .javascript, .python, .go, .ruby]

/-- The tag under which a language is known. -/
def tag : Language → Text
  | .typescript => Text.ofString "typescript"
  | .javascript => Text.ofString "javascript"
  | .python => Text.ofString "python"
  | .go => Text.ofString "go"
  | .ruby => Text.ofString "ruby"

/-- The language of a tag. -/
def ofTag? (t : Text) : Option Language :=
  all.find? (fun l => l.tag == t)

end Language

/-- The part of a text after its last unit that satisfies `sep`. -/
def Text.afterLast (sep : UInt16 → Bool) (t : Text) : Text :=
  (t.reverse.takeWhile (fun u => !sep u)).reverse

/-- The extension of a file name, in small letters: what follows the last point of the last path
segment.  A point at the front of the segment does not start an extension. -/
def fileExtension (path : Text) : Text :=
  let base := path.afterLast (fun u => u == 0x2F || u == 0x5C)
  let extension := base.afterLast (· == 0x2E)
  if extension.length + 1 < base.length then extension.lower else []

/-- The language of a file by its extension. -/
def detectLanguage (path : Text) : Option Language :=
  let extension := fileExtension path
  let isOneOf (names : List String) : Bool := names.any (fun n => Text.ofString n == extension)
  if isOneOf ["ts", "tsx", "mts", "cts"] then some .typescript
  else if isOneOf ["js", "jsx", "mjs", "cjs"] then some .javascript
  else if isOneOf ["py", "pyw"] then some .python
  else if isOneOf ["go"] then some .go
  else if isOneOf ["rb", "rake", "ru"] then some .ruby
  else none

/-- A grammar variant; the same text can have different tokens in two of them. -/
inductive Dialect where
  | ts
  | tsx
  | js
  | jsx
  | python
  | go
  | ruby
  deriving DecidableEq, Repr

namespace Dialect

/-- The name of a dialect. -/
def name : Dialect → Text
  | .ts => Text.ofString "ts"
  | .tsx => Text.ofString "tsx"
  | .js => Text.ofString "js"
  | .jsx => Text.ofString "jsx"
  | .python => Text.ofString "python"
  | .go => Text.ofString "go"
  | .ruby => Text.ofString "ruby"

/-- The script dialect that a file extension asks for. -/
def ofScriptExtension (language : Language) (extension : Text) : Dialect :=
  let isOneOf (names : List String) : Bool := names.any (fun n => Text.ofString n == extension)
  if isOneOf ["tsx"] then .tsx
  else if isOneOf ["jsx"] then .jsx
  else if isOneOf ["js", "mjs", "cjs"] then .js
  else if isOneOf ["ts", "mts", "cts"] then .ts
  else if language = .javascript then .js
  else .ts

/-- Whether markup may stand among the expressions of a dialect. -/
def allowsMarkup : Dialect → Bool
  | .tsx | .js | .jsx => true
  | _ => false

end Dialect

/-- The dialect in which a file of a language is parsed. -/
def Language.dialect (language : Language) (path : Option Text) : Dialect :=
  match language with
  | .python => .python
  | .go => .go
  | .ruby => .ruby
  | .typescript | .javascript => Dialect.ofScriptExtension language (fileExtension (path.getD []))

end CloneScan
