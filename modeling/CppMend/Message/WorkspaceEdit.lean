import CppMend.Message.Shape

/-!
# Edits of a workspace

The shapes of the edits that an editor may send back with an action. An edit of a workspace edits
documents, or it also creates, renames and deletes files.

* `Shape.fileOperation`    what creates, renames or deletes a file;
* `Shape.workspaceEdit`    an edit of a workspace.
-/

namespace CppMend

namespace Shape

def textEdit : Shape := recordOf [must "range" range, must "newText" text]

def annotation : Shape :=
  recordOf [must "label" text, may "needsConfirmation" bool, may "description" text]

/-- edits of one document, which may be of any version -/
def documentEdit : Shape :=
  recordOf [
    must "textDocument" (recordOf [must "uri" uri, ("version", .nullable, int)]),
    must "edits" (list textEdit)]

/-- what happens if there is a file where one is to be -/
def overwriting : Shape := recordOf [may "overwrite" bool, may "ignoreIfExists" bool]

def deleting : Shape :=
  recordOf [may "recursive" bool, may "ignoreIfNotExists" bool, may "annotationId" text]

def fileOperation : Shape :=
  tagged "kind" (variantsOf [
    ("create", [must "uri" uri, may "options" overwriting, may "annotationId" text]),
    ("rename", [must "oldUri" uri, must "newUri" uri, may "options" overwriting,
      may "annotationId" text]),
    ("delete", [must "uri" uri, may "options" deleting])])

/-- edits of documents alone, or along with operations on files -/
def documentChanges : Shape :=
  either (list documentEdit) (list (either fileOperation documentEdit))

def workspaceEdit : Shape :=
  recordOf [may "changes" (byUri (list textEdit)), may "documentChanges" documentChanges,
    may "changeAnnotations" (table annotation)]

end Shape

end CppMend
