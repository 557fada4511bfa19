import ApiScribe.Main
import ApiScribe.Proofs.TypeScript.References
import ApiScribe.Proofs.Inheritance.Merge
import ApiScribe.Proofs.Inheritance.Lineage
import ApiScribe.Proofs.Inheritance.Resolution
import ApiScribe.Proofs.App.Families
import ApiScribe.Proofs.Inheritance.Namesakes
import ApiScribe.Proofs.App.InheritedKey
import ApiScribe.Proofs.App.ListedFields
import ApiScribe.Proofs.Web.Endpoints
import ApiScribe.Proofs.Web.RoutePrecedence
import ApiScribe.Proofs.FileTree.Saving
import ApiScribe.Proofs.TypeScript.Files
import ApiScribe.Proofs.TypeScript.Aliases
import ApiScribe.Proofs.App.BasePrecedence
import ApiScribe.Proofs.App.FieldLists
import ApiScribe.Proofs.Inheritance.ClassOrder
import ApiScribe.Proofs.TypeScript.FirstDeclarations
import ApiScribe.Proofs.TypeScript.Ownership
import ApiScribe.Proofs.TypeScript.Index
import ApiScribe.Proofs.Expr.Scanning
import ApiScribe.Proofs.Expr.Constants
import ApiScribe.Proofs.Expr.RoundTrip
import ApiScribe.Proofs.TypeScript.Meaning
import ApiScribe.Proofs.Generation.DryRun
import ApiScribe.Proofs.FileTree.Changes
import ApiScribe.Proofs.FileTree.Joined
import ApiScribe.Proofs.FileTree.Listing
import ApiScribe.Proofs.FileTree.Resaving
import ApiScribe.Proofs.Generation.Repetition
import ApiScribe.Proofs.Generation.Documentation
import ApiScribe.Proofs.App.UnreadableFiles
import ApiScribe.Proofs.TypeScript.Enrichment
import ApiScribe.Proofs.Schema.Registration
import ApiScribe.Proofs.Schema.DeclarationOrder
import ApiScribe.Proofs.Web.Descriptions
import ApiScribe.Proofs.App.BaseEdges
import ApiScribe.Proofs.TypeScript.ImportNames
import ApiScribe.Proofs.Inventory.Exactness
import ApiScribe.Proofs.Web.UnroutedViews
import ApiScribe.Proofs.Source.LineEndings
import ApiScribe.Proofs.Sphinx.Settings
import ApiScribe.Proofs.TypeScript.RepeatedAliases
import ApiScribe.Proofs.Web.NamedGroups
import ApiScribe.Proofs.Web.RouterPrefixes
import ApiScribe.Proofs.App.InheritedActions
import ApiScribe.Proofs.TypeScript.Enumerations
import ApiScribe.Proofs.TypeScript.Labels
import ApiScribe.Proofs.Expr.Nesting
import ApiScribe.Proofs.Expr.Literals
import ApiScribe.Proofs.Source.Grouping
import ApiScribe.Proofs.Source.Numbering
import ApiScribe.Proofs.Bytewise.Lines
import ApiScribe.Proofs.Source.Docstrings
import ApiScribe.Proofs.App.AddedFields
import ApiScribe.Proofs.Enrichment.Quotes
import ApiScribe.Proofs.TypeScript.Headers
import ApiScribe.Proofs.Sphinx.Cells
import ApiScribe.Proofs.FileTree.OneFile
import ApiScribe.Proofs.TypeScript.SelfContained
import ApiScribe.Proofs.Web.JoinedPaths
import ApiScribe.Proofs.KebabSpelling
import ApiScribe.Proofs.Expr.Splitting
