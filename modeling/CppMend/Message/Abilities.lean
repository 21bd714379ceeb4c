import CppMend.Message.Shape

/-!
# What an editor can do

The shape of what an editor says of itself when it starts a session. Little of it matters here, but
all of it has to be well formed.

* `Shape.abilities`    all that an editor can do.
-/

namespace CppMend

namespace Shape

/-! ## parts -/

/-- fields that are true or false and may be left out -/
def switches (keys : List String) : List Entry := keys.map (may · bool)

def switchRecord (keys : List String) : Shape := recordOf (switches keys)

/-- the editor can be told later what to ask for -/
def dynamic : Shape := switchRecord ["dynamicRegistration"]

def refreshing : Shape := switchRecord ["refreshSupport"]

/-- what an editor can ask for when it needs it -/
def resolving : Shape := recordOf [must "properties" (list text)]

/-- which values of a kind an editor knows -/
def knownValues (item : Shape) : Shape := recordOf [may "valueSet" (list item)]

/-- which tags an editor knows; some editors only say whether they know any -/
def tagSupport : Entry :=
  ("tagSupport", .atEnd, either bool (recordOf [must "valueSet" (list int)]))

def markup : Shape := oneOf ["plaintext", "markdown"]

def linking : Shape := switchRecord ["dynamicRegistration", "linkSupport"]

/-! ## the workspace -/

def workspaceEditing : Shape :=
  recordOf [
    may "documentChanges" bool,
    may "resourceOperations" (list (oneOf ["create", "rename", "delete"])),
    may "failureHandling" (oneOf ["abort", "transactional", "textOnlyTransactional", "undo"]),
    may "normalizesLineEndings" bool,
    may "changeAnnotationSupport" (switchRecord ["groupsOnLabel"])]

def workspaceAbilities : Shape :=
  recordOf [
    may "applyEdit" bool,
    may "workspaceEdit" workspaceEditing,
    may "didChangeConfiguration" dynamic,
    may "didChangeWatchedFiles" (switchRecord ["dynamicRegistration", "relativePatternSupport"]),
    may "symbol" (recordOf [may "dynamicRegistration" bool, may "symbolKind" (knownValues int),
      tagSupport, may "resolveSupport" resolving]),
    may "executeCommand" dynamic,
    may "workspaceFolders" bool,
    may "configuration" bool,
    may "semanticTokens" refreshing,
    may "codeLens" refreshing,
    may "fileOperations" (switchRecord ["dynamicRegistration", "didCreate", "willCreate",
      "didRename", "willRename", "didDelete", "willDelete"]),
    may "inlineValue" refreshing,
    may "inlayHint" refreshing,
    may "diagnostic" refreshing]

/-! ## documents -/

def completionItem : Shape :=
  recordOf [
    may "snippetSupport" bool,
    may "commitCharactersSupport" bool,
    may "documentationFormat" (list markup),
    may "deprecatedSupport" bool,
    may "preselectSupport" bool,
    tagSupport,
    may "insertReplaceSupport" bool,
    may "resolveSupport" resolving,
    may "insertTextModeSupport" (recordOf [must "valueSet" (list int)]),
    may "labelDetailsSupport" bool]

def completion : Shape :=
  recordOf [
    may "dynamicRegistration" bool,
    may "completionItem" completionItem,
    may "completionItemKind" (knownValues int),
    may "contextSupport" bool,
    may "insertTextMode" int,
    may "completionList" (recordOf [may "itemDefaults" (list text)])]

def signatureHelp : Shape :=
  recordOf [
    may "dynamicRegistration" bool,
    may "signatureInformation" (recordOf [
      may "documentationFormat" (list markup),
      may "parameterInformation" (switchRecord ["labelOffsetSupport"]),
      may "activeParameterSupport" bool]),
    may "contextSupport" bool]

def documentSymbol : Shape :=
  recordOf [
    may "dynamicRegistration" bool,
    may "symbolKind" (knownValues int),
    may "hierarchicalDocumentSymbolSupport" bool,
    tagSupport]

def codeAction : Shape :=
  recordOf [
    may "dynamicRegistration" bool,
    may "codeActionLiteralSupport"
      (recordOf [must "codeActionKind" (recordOf [must "valueSet" (list text)])]),
    may "isPreferredSupport" bool,
    may "disabledSupport" bool,
    may "dataSupport" bool,
    may "resolveSupport" resolving,
    may "honorsChangeAnnotations" bool]

def rename : Shape :=
  recordOf [
    may "dynamicRegistration" bool,
    may "prepareSupport" bool,
    may "prepareSupportDefaultBehavior" int,
    may "honorsChangeAnnotations" bool]

def diagnostics : Shape :=
  recordOf [
    may "relatedInformation" bool,
    tagSupport,
    may "versionSupport" bool,
    may "codeDescriptionSupport" bool,
    may "dataSupport" bool]

def folding : Shape :=
  recordOf [
    may "dynamicRegistration" bool,
    may "rangeLimit" (nat 32),
    may "lineFoldingOnly" bool,
    may "foldingRangeKind" (knownValues (oneOf ["comment", "imports", "region"])),
    may "foldingRange" (switchRecord ["collapsedText"])]

/-- tokens of a whole document, or what changed of them -/
def wholeTokens : Shape := either bool (unlisted (fieldsOf (switches ["delta"])))

def semanticTokens : Shape :=
  recordOf [
    may "dynamicRegistration" bool,
    must "requests" (recordOf [may "range" bool, may "full" wholeTokens]),
    must "tokenTypes" (list text),
    must "tokenModifiers" (list text),
    must "formats" (list text),
    may "overlappingTokenSupport" bool,
    may "multilineTokenSupport" bool,
    may "serverCancelSupport" bool,
    may "augmentsSyntaxTokens" bool]

def documentAbilities : Shape :=
  recordOf [
    may "synchronization"
      (switchRecord ["dynamicRegistration", "willSave", "willSaveWaitUntil", "didSave"]),
    may "completion" completion,
    may "hover" (recordOf [may "dynamicRegistration" bool, may "contentFormat" (list markup)]),
    may "signatureHelp" signatureHelp,
    may "references" dynamic,
    may "documentHighlight" dynamic,
    may "documentSymbol" documentSymbol,
    may "formatting" dynamic,
    may "rangeFormatting" dynamic,
    may "onTypeFormatting" dynamic,
    may "declaration" linking,
    may "definition" linking,
    may "typeDefinition" linking,
    may "implementation" linking,
    may "codeAction" codeAction,
    may "codeLens" dynamic,
    may "documentLink" (switchRecord ["dynamicRegistration", "tooltipSupport"]),
    may "colorProvider" dynamic,
    may "rename" rename,
    may "publishDiagnostics" diagnostics,
    may "foldingRange" folding,
    may "selectionRange" dynamic,
    may "linkedEditingRange" dynamic,
    may "callHierarchy" dynamic,
    may "semanticTokens" semanticTokens,
    may "moniker" dynamic,
    may "typeHierarchy" dynamic,
    may "inlineValue" dynamic,
    may "inlayHint"
      (recordOf [may "dynamicRegistration" bool, may "resolveSupport" resolving]),
    may "diagnostic" (switchRecord ["dynamicRegistration", "relatedDocumentSupport"])]

/-! ## all -/

/-- the program that an editor is -/
def clientInfo : Shape := recordOf [must "name" text, may "version" text]

def windowAbilities : Shape :=
  recordOf [
    may "workDoneProgress" bool,
    may "showMessage"
      (recordOf [may "messageActionItem" (switchRecord ["additionalPropertiesSupport"])]),
    may "showDocument" (recordOf [must "support" bool])]

def generalAbilities : Shape :=
  recordOf [
    may "regularExpressions" (recordOf [must "engine" text, may "version" text]),
    may "markdown" (recordOf [must "parser" text, may "version" text,
      may "allowedTags" (list text)]),
    may "staleRequestSupport"
      (recordOf [must "cancel" bool, must "retryOnContentModified" (list text)]),
    may "positionEncodings" (list text)]

def abilities : Shape :=
  recordOf [
    may "workspace" workspaceAbilities,
    may "textDocument" documentAbilities,
    may "window" windowAbilities,
    may "general" generalAbilities,
    may "experimental" any]

end Shape

end CppMend
