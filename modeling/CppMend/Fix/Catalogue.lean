import CppMend.Fix.Registry

/-!
# A catalogue of sources

Sources of fixes to register under ids of one's choice. Some always answer the same, whatever the
context is; the others look at the text around the cursor.

* `FixSource.swapping`     changes the operands of an operator under the cursor;
* `FixSource.wrapping`     puts texts around a node of a kind;
* `FixSource.declared`     shows where the name under the cursor is declared;
* `FixSource.describing`   shows the context.
-/

namespace CppMend

namespace FixSource

/-! ## the same answer for every context -/

def offering (id : Text) (fixes : List Fix) : FixSource := ⟨id, fun _ => .ok fixes⟩

def failing (id : Text) (error : FixError) : FixSource := ⟨id, fun _ => .error error⟩

def breaking (id : Text) (b : Breakdown) : FixSource := ⟨id, fun _ => .brokenDown b⟩

/-- a source that offers nothing, and fails where its edits do not fit the text -/
def checking (id : Text) (c : ChangeSet) : FixSource where
  id := id
  evaluate context :=
    match c.apply context.source with
    | .ok _ => .ok []
    | .error e => .error (.change e)

/-! ## swapping -/

/-- the operands of the innermost operation, if the cursor is on its operator -/
def operands? (c : FixContext) : Option (Node × Node) := do
  let n ← c.path.innermostOf? .binaryExpr
  let lhs ← n.firstNode?
  let rhs ← n.secondNode?
  let op ← n.firstToken?
  if c.isOnLeaf op then some (lhs, rhs) else none

def swapping (id : Text) : FixSource where
  id := id
  evaluate c :=
    match operands? c with
    | some (lhs, rhs) =>
      .ok [.ofEdits "Swap operands".toList
        [⟨lhs.span, c.textOf rhs⟩, ⟨rhs.span, c.textOf lhs⟩]]
    | none => .ok []

/-! ## wrapping -/

/-- puts texts before and after the innermost or outermost node of a kind around the cursor -/
def wrapping (id : Text) (kind : Option NodeKind) (before after : Text) (outermost : Bool) :
    FixSource where
  id := id
  evaluate c :=
    let node := kind.bind fun k =>
      if outermost then c.path.outermostOf? k else c.path.innermostOf? k
    match node with
    | some n =>
      .ok [.ofEdits ("Wrap ".toList ++ c.textOf n)
        [⟨.empty n.span.start, before⟩, ⟨.empty n.span.stop, after⟩]]
    | none => .ok []

/-! ## declarations -/

def placeText (l : Located) : Text :=
  l.uri.render ++ [' '] ++ l.symbol.kind.name.toList ++ [' '] ++ l.symbol.nameSpan.render.toList

def declared (id : Text) : FixSource where
  id := id
  evaluate c :=
    match c.leaf? with
    | some l =>
      let places := c.lookup l.text
      if l.kind = .ident ∧ !places.isEmpty then
        .ok [.ofEdits (l.text ++ [':', ' '] ++ Text.joined [',', ' '] (places.map placeText))
          [⟨l.span, l.text.map Char.toUpper⟩]]
      else .ok []
    | none => .ok []

/-! ## descriptions -/

/-- a value that may be missing, the way it is shown to developers -/
def shown (text : Option String) : String :=
  match text with
  | some s => "Some(" ++ s ++ ")"
  | none => "None"

def description (c : FixContext) : String :=
  c.reason.name ++ " cursor=" ++ toString c.cursor
    ++ " selection=" ++ shown (c.selection.map Span.render)
    ++ " path=" ++ String.intercalate "/" (c.path.kinds.map NodeKind.name)
    ++ " token=" ++ shown (c.tokenIndex?.map toString)
    ++ " at=" ++ (match c.location? with
      | some l => l.render
      | none => "none")

def describing (id : Text) : FixSource :=
  ⟨id, fun c => .ok [.ofEdits (description c).toList []]⟩

end FixSource

end CppMend
