import ClassAtlas.Mapping.Run
import ClassAtlas.Text.JsonValue
import ClassAtlas.Workspace.Rename

/-!
# What commands print

Every command prints a report, as text for people or as a JSON document for programs.

## Main definitions

* `ClassAtlas.OutputFormat` — text, JSON on many lines, JSON on one line.
* `ClassAtlas.Report` — a report in both forms, and `ClassAtlas.Report.render`.
* `ClassAtlas.Report.ofSymbols`, `ofReferences`, `ofMapping`, `ofImport`, `ofRename`, `ofExport`,
  `ofSummary` — the reports.
-/

set_option autoImplicit false

namespace ClassAtlas

/-- The forms in which commands print. -/
inductive OutputFormat where
  /-- For people. -/
  | text
  /-- A JSON document with one item per line. -/
  | json
  /-- A JSON document on one line. -/
  | compact
  deriving DecidableEq, Repr

/-- The word for a form. -/
def OutputFormat.word : OutputFormat → String
  | text => "text"
  | json => "json"
  | compact => "compact"

/-- The form for a word. -/
def OutputFormat.ofWord? (word : String) : Option OutputFormat :=
  [text, json, compact].find? (·.word == word)

/-- What a command has to say. -/
structure Report where
  /-- For people. -/
  text : String
  /-- For programs. -/
  document : JsonValue
  deriving Repr

/-- A report in one of the forms. -/
def Report.render (report : Report) : OutputFormat → String
  | .text => report.text
  | .json => report.document.pretty
  | .compact => report.document.compact

/-- A symbol with the path of the file that declares it. -/
structure SymbolEntry where
  /-- What it is. -/
  kind : SymbolKind
  /-- Its identity. -/
  identity : Identity
  /-- Its name. -/
  name : String
  /-- The path of the file that declares it. -/
  file : Option String
  /-- The access flags of the declaration. -/
  access : UInt16
  deriving DecidableEq, Repr

/-- A reference with the path of the file that it is in. -/
structure ReferenceEntry where
  /-- How the target is used. -/
  kind : ReferenceKind
  /-- The path of the file. -/
  file : String
  /-- The class or member in which the use is. -/
  owner : Identity
  /-- The offset of the use in the body of a method. -/
  location : Option Nat
  deriving DecidableEq, Repr

namespace Report

/-- A text with blanks behind it up to a width. -/
def padded (width : Nat) (text : String) : String :=
  text ++ String.ofList (List.replicate (width - text.length) ' ')

/-- A count. -/
def count (n : Nat) : JsonValue := .number n

/-- An identity. -/
def identityDocument (identity : Identity) : JsonValue := .text identity.text

/-! ### Symbols -/

/-- A symbol as a document. -/
def symbolDocument (s : SymbolEntry) : JsonValue :=
  .object [("kind", .text s.kind.label), ("identity", identityDocument s.identity),
    ("name", .text s.name), ("file", .ofOption .text s.file), ("access", count s.access.toNat)]

/-- A symbol on a line. -/
def symbolLine (s : SymbolEntry) : String :=
  s.kind.word ++ " " ++ padded 60 s.identity.text ++ " " ++ s.file.getD "(external)" ++ "\n"

/-- The report of a list of symbols. -/
def ofSymbols (symbols : List SymbolEntry) : Report where
  text := String.join (symbols.map symbolLine) ++ toString symbols.length ++ " symbols"
  document := .list (symbols.map symbolDocument)

/-! ### References -/

/-- A use of a symbol as a document. -/
def referenceDocument (r : ReferenceEntry) : JsonValue :=
  .object [("file", .text r.file), ("kind", .text r.kind.label),
    ("location", .ofOption count r.location), ("owner", identityDocument r.owner)]

/-- A use of a symbol on a line. -/
def referenceLine (r : ReferenceEntry) : String :=
  let location := (r.location.map fun offset => " @" ++ toString offset).getD ""
  "  " ++ padded 22 r.kind.tag ++ " " ++ r.file ++ " in " ++ r.owner.text ++ location ++ "\n"

/-- The report of the uses of a symbol. -/
def ofReferences (identity : Identity) (references : List ReferenceEntry) : Report where
  text := toString references.length ++ " references to " ++ identity.text ++ "\n" ++
    String.join (references.map referenceLine)
  document := .object [("identity", identityDocument identity),
    ("references", .list (references.map referenceDocument))]

/-! ### Import, mapping and export -/

/-- The report of an import. -/
def ofImport (imported : Nat) : Report where
  text := "Imported " ++ toString imported ++ " files"
  document := .object [("files_imported", count imported)]

/-- The report of a mapping run after an import; times are not measured. -/
def ofMapping (imported : Nat) (report : MapReport) : Report where
  text :=
    (if imported > 0 then (ofImport imported).text ++ "\n" else "") ++
      "Mapped " ++ toString report.filesMapped ++ " class files in " ++ toString report.jobs ++
      " jobs: " ++ toString report.symbols ++ " symbols, " ++ toString report.references ++
      " references (0ms)" ++
      (if report.filesSkipped > 0 then "\nSkipped " ++ toString report.filesSkipped ++ " files"
        else "")
  document := .object [("duration_ms", count 0), ("files_imported", count imported),
    ("files_mapped", count report.filesMapped), ("files_skipped", count report.filesSkipped),
    ("jobs", count report.jobs), ("parse_errors", .list (report.parseErrors.map .text)),
    ("references", count report.references), ("symbols", count report.symbols)]

/-- The report of an export to a directory. -/
def ofExport (written : Nat) (destination : String) : Report where
  text := "Exported " ++ toString written ++ " files to " ++ destination
  document := .object [("dest", .text destination), ("files_written", count written)]

/-! ### Renames -/

/-- A stored reference as a document. -/
def storedReferenceDocument (r : StoredReference) : JsonValue :=
  .object [("id", .number r.id), ("kind", .text r.reference.kind.label),
    ("file", .number r.reference.file), ("target", identityDocument r.reference.target),
    ("owner", identityDocument r.reference.owner),
    ("location", .ofOption count r.reference.location)]

/-- A change as a document. -/
def changeDocument {α : Type} (f : α → String) (change : Change α) : JsonValue :=
  .object [("from", .text (f change.before)), ("to", .text (f change.after))]

/-- What is said about the call sites that keep the old name. -/
def dynamicWarning (references : List StoredReference) : String :=
  if references.isEmpty then ""
  else "  warning: " ++ toString references.length ++
    " invokedynamic call sites still use the old name:\n" ++
    String.join (references.map fun r => "    in " ++ r.reference.owner.text ++ "\n")

/-- The report of a rename. -/
def ofRename (outcome : RenameOutcome) : Report where
  text :=
    "Renamed " ++ outcome.oldIdentity.text ++ " -> " ++ outcome.newIdentity.text ++ "\n  " ++
      toString outcome.revisedFiles.length ++ " files rewritten, " ++
      toString outcome.migratedIdentities.length ++ " identities migrated\n" ++
      String.join (outcome.renamedFiles.map fun file =>
        "  moved " ++ file.before ++ " -> " ++ file.after ++ "\n") ++
      dynamicWarning outcome.dynamicReferences
  document := .object [("old_identity", identityDocument outcome.oldIdentity),
    ("new_identity", identityDocument outcome.newIdentity),
    ("rewritten_files", .list (outcome.revisedFiles.map .text)),
    ("renamed_files", .list (outcome.renamedFiles.map (changeDocument id))),
    ("migrated_identities",
      .list (outcome.migratedIdentities.map (changeDocument Identity.text))),
    ("dynamic_references", .list (outcome.dynamicReferences.map storedReferenceDocument))]

/-! ### Summaries -/

/-- The report of the sizes of the tables. -/
def ofSummary (s : Summary) : Report where
  text :=
    "Files:       " ++ toString s.files ++ " (" ++ toString s.archives ++ " archives)\n" ++
      "Identities:  " ++ toString s.identities ++ "\n" ++
      "Symbols:     " ++ toString s.classes ++ " classes, " ++ toString s.fields ++ " fields, " ++
      toString s.methods ++ " methods\n" ++
      "Declared:    " ++ toString s.declared ++ " (" ++ toString s.placeholders ++
      " placeholders)\n" ++
      "References:  " ++ toString s.references
  document := .object [("files", count s.files), ("archives", count s.archives),
    ("identities", count s.identities), ("classes", count s.classes), ("fields", count s.fields),
    ("methods", count s.methods), ("declared", count s.declared),
    ("placeholders", count s.placeholders), ("references", count s.references)]

end Report

end ClassAtlas
