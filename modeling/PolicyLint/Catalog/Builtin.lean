import PolicyLint.Catalog.Draft

/-!
# The catalog that is always there

The rules that are known without any catalog of the user, in the order in which they get their
numbers.
-/

namespace PolicyLint.Catalog

/-- The first of the removal dates in use. -/
def spring : Value := .string "2021-03-21"

/-- The second of the removal dates in use. -/
def summer : Value := .string "2021-06-30"

/-- The rules that are always known, as a draft. -/
def builtinDraft : CatalogDraft where
  conditions :=
    [⟨.field "region" "region in condition block", summer, none⟩,
     ⟨.field "start" "value filter in condition block", summer, none⟩,
     ⟨.field "end" "value filter in condition block", summer, none⟩]
  filters :=
    [⟨["allow", "whitelist"], ["azure.keyvault"], [⟨.typeAlias "whitelist", spring, none⟩]⟩,
     ⟨["cross-account"], [],
      [⟨.field "whitelist" "allow", spring, none⟩,
       ⟨.field "whitelist_from" "allow_from", spring, none⟩]⟩,
     ⟨["finding"], [], [⟨.field "severity_normalized" "severity_label", summer, none⟩]⟩,
     ⟨["unused"], ["aws.iam-policy"],
      [⟨.element .filter "unused" "use the 'used' filter with 'state' attribute", summer,
        none⟩]⟩]
  actions :=
    [⟨["mark-for-op"], [],
      [⟨.optionalFields ["hours", "days"], summer, none⟩,
       ⟨.optionalField "tag", summer, none⟩]⟩,
     ⟨["tag", "mark"], [], [⟨.typeAlias "mark", summer, none⟩]⟩,
     ⟨["remove-tag", "unmark", "untag"], [],
      [⟨.typeAlias "unmark", summer, none⟩, ⟨.typeAlias "untag", summer, none⟩]⟩,
     ⟨["set-snapshot-copy-tags"], ["aws.rds"],
      [⟨.element .action "set-snapshot-copy-tags"
        "use modify-db instead with \x60CopyTagsToSnapshot\x60", summer, none⟩]⟩]

/-- The catalog that is always there. Its rules get new numbers whenever it is built. -/
def builtin : Construction LoadError Catalog :=
  builtinDraft.build

end PolicyLint.Catalog
