import SymbolDocs.Grammar.Basic

/-!
# The tags of the grammar "jsdoc"
-/

namespace SymbolDocs.Grammar

/-- The tags that the grammar has beside the common ones. -/
def jsdocTags : List Definition :=
  [{ name := "abstract", effects := flag .virtual, synonyms := ["virtual"], shape := .none, mustNotHaveValue := true },
   { name := "access", effects := rule .access, mustHaveValue := true },
   { name := "alias", effects := rule .aliasOf, shape := .namePath, mustHaveValue := true },
   { name := "async", effects := flag .async, shape := .none, mustNotHaveValue := true },
   { name := "author", effects := append .author, mustHaveValue := true },
   { name := "borrows", effects := rule .borrows, mustHaveValue := true },
   { name := "callback", effects := rule .callback, shape := .namePath, mustHaveValue := true },
   { name := "classdesc", effects := store .classdesc },
   { name := "copyright", effects := store .copyright, mustHaveValue := true },
   { name := "default", effects := rule .default, synonyms := ["defaultvalue"] },
   { name := "description", effects := store .description, synonyms := ["desc"] },
   { name := "event", effects := kind "event", shape := .namePath, mustHaveValue := true, prefixesLongname := true },
   { name := "example", effects := append .examples, mustHaveValue := true, keepsWhitespace := true },
   { name := "exports", effects := kind "module", shape := .namePath, mustHaveValue := true },
   { name := "external", effects := kind "external", synonyms := ["host"], shape := .namePath, mustHaveValue := true,
     isNamespace := true, prefixesLongname := true },
   { name := "file", effects := rule .file, synonyms := ["fileoverview", "overview"] },
   { name := "fires", effects := rule .fires, synonyms := ["emits"], shape := .namePath, mustHaveValue := true },
   { name := "function", effects := kind "function", synonyms := ["func", "method"], shape := .namePath },
   { name := "generator", effects := flag .generator, shape := .none, mustNotHaveValue := true },
   { name := "global", effects := rule (.scope .global), shape := .none, mustNotHaveValue := true },
   { name := "hideconstructor", effects := flag .hideconstructor, shape := .none, mustNotHaveValue := true },
   { name := "ignore", effects := flag .ignore, shape := .none, mustNotHaveValue := true },
   { name := "inner", effects := rule (.scope .inner), shape := .none, mustNotHaveValue := true },
   { name := "instance", effects := rule (.scope .perInstance), shape := .none, mustNotHaveValue := true },
   { name := "kind", effects := rule .kind, mustHaveValue := true },
   { name := "listens", effects := rule .listens, shape := .namePath, mustHaveValue := true },
   { name := "member", effects := kind "member", synonyms := ["var"], shape := .structured, named := true },
   { name := "memberof", effects := store .memberof, shape := .namePath, mustHaveValue := true },
   { name := "mixes", effects := rule .mixes, shape := .namePath, mustHaveValue := true },
   { name := "mixin", effects := kind "mixin", shape := .namePath, isNamespace := true },
   { name := "module", effects := kind "module", shape := .namePath, isNamespace := true, prefixesLongname := true },
   { name := "name", effects := store .name, shape := .namePath, mustHaveValue := true },
   { name := "namespace", effects := kind "namespace", shape := .structured, named := true, isNamespace := true },
   { name := "property", effects := append .properties, synonyms := ["prop"], shape := .structured, named := true },
   { name := "readonly", effects := flag .readonly, shape := .none, mustNotHaveValue := true },
   { name := "requires", effects := rule .requires, shape := .namePath, mustHaveValue := true },
   { name := "see", effects := append .see, mustHaveValue := true },
   { name := "since", effects := store .since, mustHaveValue := true },
   { name := "static", effects := rule (.scope .static), shape := .none, mustNotHaveValue := true },
   { name := "summary", effects := store .summary, mustHaveValue := true },
   { name := "todo", effects := append .todo, mustHaveValue := true },
   { name := "tutorial", effects := append .tutorials, mustHaveValue := true },
   { name := "variation", effects := store .variation, mustHaveValue := true },
   { name := "version", effects := store .version, mustHaveValue := true },
   { name := "yields", effects := append .yields, synonyms := ["yield"], shape := .structured }]

end SymbolDocs.Grammar
