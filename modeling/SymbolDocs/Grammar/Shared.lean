import SymbolDocs.Grammar.Basic

/-!
# Tags common to all grammars
-/

namespace SymbolDocs.Grammar

/-- The tags that mean the same in every grammar. -/
def sharedTags : List Definition :=
  [{ name := "augments", effects := rule .augments, synonyms := ["extends"], shape := .namePath,
     mustHaveValue := true },
   { name := "class", effects := kind "class", synonyms := ["constructor"], shape := .namePath, isNamespace := true },
   { name := "constant", effects := rule .constant, synonyms := ["const"], shape := .structured, named := true },
   { name := "deprecated", effects := rule .deprecated },
   { name := "enum", effects := rule .enum, shape := .typeExpression },
   { name := "implements", effects := append .implements, shape := .namePath, mustHaveValue := true },
   { name := "inheritdoc", effects := rule .inheritdoc, synonyms := ["inheritDoc"], shape := .none },
   { name := "interface", effects := kind "interface", shape := .namePath, isNamespace := true },
   { name := "lends", effects := rule .lends, shape := .namePath, mustHaveValue := true },
   { name := "license", effects := store .license },
   { name := "override", effects := flag .override, shape := .none, mustNotHaveValue := true },
   { name := "param", effects := append .params, synonyms := ["arg", "argument"], shape := .structured, named := true },
   { name := "package", effects := rule (.accessLevel .packageLevel), shape := .none },
   { name := "private", effects := rule (.accessLevel .privateLevel), shape := .none },
   { name := "protected", effects := rule (.accessLevel .protectedLevel), shape := .none },
   { name := "public", effects := rule (.accessLevel .publicLevel), shape := .none },
   { name := "returns", effects := append .returns, synonyms := ["return"], shape := .structured },
   { name := "this", effects := store .receiver, shape := .namePath, mustHaveValue := true },
   { name := "throws", effects := append .exceptions, synonyms := ["exception"], shape := .structured },
   { name := "type", effects := rule .type, shape := .typeExpression, mustHaveValue := true },
   { name := "typedef", effects := kind "typedef", shape := .structured, named := true }]

end SymbolDocs.Grammar
