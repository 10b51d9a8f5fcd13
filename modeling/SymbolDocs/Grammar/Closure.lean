import SymbolDocs.Grammar.Basic

/-!
# The tags of the grammar "closure"
-/

namespace SymbolDocs.Grammar

/-- The tags that are known but do not document anything. -/
def closurePlainTags : List String :=
  ["dict", "export", "externs", "implicitcast", "modifies", "noalias", "nocollapse", "nocompile", "nosideeffects",
    "polymerBehavior", "record", "struct", "suppress", "unrestricted"]

/-- The tags that the grammar has beside the common ones. Its access tags also take a type. -/
def closureTags : List Definition :=
  [{ name := "define", effects := rule .define, shape := .structured, mustHaveValue := true },
   { name := "fileoverview", effects := rule .file },
   { name := "final", effects := rule .final, shape := .none, mustNotHaveValue := true },
   { name := "package", effects := rule (.accessLevel .packageLevel), shape := .typeExpression },
   { name := "private", effects := rule (.accessLevel .privateLevel), shape := .typeExpression },
   { name := "protected", effects := rule (.accessLevel .protectedLevel), shape := .typeExpression },
   { name := "public", effects := rule (.accessLevel .publicLevel), shape := .typeExpression },
   { name := "preserve", effects := store .license },
   { name := "template", effects := rule .template, mustHaveValue := true }] ++
  closurePlainTags.map fun title => { name := title }

end SymbolDocs.Grammar
