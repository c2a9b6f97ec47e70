import CloneScan.Grammar.GoParser
import CloneScan.Grammar.PythonParser
import CloneScan.Grammar.RubyParser
import CloneScan.Grammar.ScriptParser

/-!
# Tokenizing

The tokens of a source text in the grammar of its language, for any parsers of the languages and
for those of this library.
-/

namespace CloneScan

/-- The parsers of the languages.  The trees of a script have offsets in its text as ranges. -/
structure Parsers where
  python : TreeParser
  go : TreeParser
  ruby : TreeParser
  script : Dialect → Text → List ScriptTree

/-- The parsers of this library. -/
def Parsers.standard : Parsers where
  python := Grammar.Python.treeParser
  go := Grammar.Go.treeParser
  ruby := Grammar.Ruby.treeParser
  script := Grammar.Script.leaves

namespace Parsers

/-- The tokens of a script.  A byte order mark at its front does not belong to the text. -/
def scriptTokens (parsers : Parsers) (source : Text) (dialect : Dialect) :
    Except Failure (List Token) :=
  let text :=
    match source with
    | 0xFEFF :: rest => rest
    | text => text
  ScriptTree.tokens (parsers.script dialect text) text

/-- The tokens of a text in a language.  The path decides between the dialects of a language. -/
def tokenizeAs (parsers : Parsers) (source : Text) (language : Language) (path : Text) :
    Except Failure (List Token) :=
  if source.contains 0 then .error (.tokenize .binaryContent none)
  else
    match language with
    | .go => parsers.go.tokens .go source
    | .python => parsers.python.tokens .python source
    | .ruby => parsers.ruby.tokens .ruby source
    | .typescript | .javascript => parsers.scriptTokens source (language.dialect (some path))

/-- The tokens of a text in the language of a tag. -/
def tokenize (parsers : Parsers) (source tag path : Text) : Except Failure (List Token) :=
  match Language.ofTag? tag with
  | none => .error (.unsupportedLanguage tag none)
  | some language => parsers.tokenizeAs source language path

end Parsers

/-- The tokens of a text in a language. -/
def tokenizeAs (source : Text) (language : Language) (path : Text) :
    Except Failure (List Token) :=
  Parsers.standard.tokenizeAs source language path

/-- The tokens of a text in the language of a tag. -/
def tokenize (source tag path : Text) : Except Failure (List Token) :=
  Parsers.standard.tokenize source tag path

end CloneScan
