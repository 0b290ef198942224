import Statechart.Splice.Matching
import Statechart.Splice.Style

/-!
# Differences of trees

The text edits that turn the source of a tree into the source of its *draft*, the
same tree after some changes. The text is not written anew: entries of objects and
arrays are matched by their origins, kept entries keep their text, and only what
differs is changed.

* entries that the draft lacks are deleted, with the comment lines above them and
  the comma and comment behind them;
* new entries are inserted next to the nearest kept one, with its indentation;
* nodes that have moved are written with their own text, and the changes within.

`Baseline.diff` gives the edits. It works on the *plan* of the draft, in which each node
comes with two functions: the edits that turn a node of the first tree into it, and
its text in a new place.
-/

namespace Statechart

/-- A tree with the source and the style that its text is written in. -/
structure Baseline where
  source : Bytes
  style : Style
  tree : Expr

/-- What depends on an edit that may be impossible. -/
abbrev Spliced := Except SpliceError

/-- How a node of the draft is written. -/
structure Plan where
  node : Expr
  /-- The edits that turn a node of the first tree into it. -/
  edits : Expr → Spliced (List TextEdit)
  /-- Its text on a line with the given indentation. -/
  text : String → Spliced String

/-- How an entry of the draft is written. -/
structure EntryPlan where
  origin : Origin
  /-- The edits that turn an entry of the first tree into it. -/
  edits : Entry → Spliced (List TextEdit)
  /-- Its text on a line with the given indentation. -/
  text : String → Spliced String

namespace Baseline

variable (baseline : Baseline)

/-! ## Text of new nodes -/

/-- A literal over several lines. -/
def block (opening closing : String) (indent : String) (lines : List String) : String :=
  opening ++ "\n" ++ String.intercalate ",\n" lines
    ++ (if baseline.style.trailingComma then "," else "") ++ "\n" ++ indent ++ closing

/-- The lines of entries that are indented one unit deeper than `indent`. -/
def lines (indent : String) (entries : List EntryPlan) : Spliced (List String) :=
  let inner := indent ++ baseline.style.indentUnit
  entries.mapM fun entry => do pure (inner ++ (← entry.text inner))

/-- The text of a new object. -/
def objectText (entries : List EntryPlan) (indent : String) : Spliced String := do
  if entries.isEmpty then pure "\x7b\x7d"
  else pure (baseline.block "\x7b" "\x7d" indent (← baseline.lines indent entries))

/-- Whether a node is an object with entries. -/
def isFilledObject : Expr → Bool
  | .object _ props => !props.isEmpty
  | _ => false

/-- The text of a new array: over several lines if an item is an object with
    entries. -/
def arrayText (items : List Expr) (entries : List EntryPlan) (indent : String) :
    Spliced String := do
  if items.any isFilledObject then
    pure (baseline.block "[" "]" indent (← baseline.lines indent entries))
  else
    let parts ← entries.mapM (·.text indent)
    pure ("[" ++ String.intercalate ", " parts ++ "]")

/-- The text of a new call. -/
def callText (callee : Plan) (args : List EntryPlan) (indent : String) : Spliced String := do
  let parts ← args.mapM (·.text indent)
  pure ((← callee.text indent) ++ "(" ++ String.intercalate ", " parts ++ ")")

/-- The text of a new node without parts. Code and other forms have no text but that
    of their place. -/
def leafText : Expr → String
  | .str _ value => baseline.style.string value
  | .template _ text => text
  | .number _ text => text
  | .bool _ value => if value then "true" else "false"
  | .null _ => "null"
  | .undefined _ => "undefined"
  | .ident _ name => name
  | expr => (expr.span.map (·.slice baseline.source)).getD ""

/-! ## Text that moves -/

/-- The text at a place with edits made within it, moved to another indentation. -/
def movedText (span : Span) (edits : List TextEdit) (indent : String) : Spliced String := do
  let edits ← TextEdit.normalize edits
  let text ← TextEdit.applyAll (span.slice baseline.source) (edits.map (·.shifted span.start))
  pure (Text.reindent text (Text.indentAt baseline.source span.start) indent)

/-- Replaces the text at a place by one with the indentation of `line`. -/
def replacement (span : Span) (line : Nat) (text : String → Spliced String) :
    Spliced (List TextEdit) := do
  pure [.replace span.start span.stop (← text (Text.indentAt baseline.source line))]

/-! ## Entries of a literal -/

/-- The edits that turn the entries of the literal at `span` into those of the draft.
    If none is kept, the literal is replaced by its new text. -/
def entryEdits (span : Span) (old : List Entry) (new : List EntryPlan)
    (fresh : String → Spliced String) : Spliced (List TextEdit) := do
  let matched := Splice.matchFrom old 0 (new.map (·.origin))
  let kept := matched.filterMap id
  match kept with
  | [] =>
    if old.isEmpty && new.isEmpty then pure []
    else baseline.replacement span span.start fresh
  | firstKept :: _ =>
    let source := baseline.source
    let multiline := Text.spansLines source span.start span.stop
    let changes ← (new.zip matched).mapM fun (entry, i) =>
      match i.bind (old[·]?) with
      | some before => entry.edits before
      | none => pure []
    let appends := matched.getLast? == some none
    let deletions := Splice.deletions source multiline (multiline && !appends) old kept
    let insertions ← (Splice.runs (new.zip matched)).mapM fun (anchor, run) =>
      match old[anchor.getD firstKept]?.bind (·.span) with
      | none => pure []
      | some place => do
        let ownLine := multiline && Text.startsLine source place.start
        let texts ← run.mapM (·.text (Text.indentAt source place.start))
        pure (if anchor.isSome then Splice.insertionAfter source ownLine place texts
          else Splice.insertionBefore source ownLine place texts)
    pure (changes.flatten ++ deletions ++ insertions.flatten)

/-- Whether two nodes are literals of one kind. -/
def sameContainer : Expr → Expr → Bool
  | .object _ _, .object _ _ => true
  | .array _ _, .array _ _ => true
  | _, _ => false

/-- Whether the text of a node can be kept, at most with its entries changed. -/
def isReusable (old new : Expr) : Bool :=
  sameContainer old new || old.sameShape new

/-- The plan of a node from its new text and the plans of its entries. -/
def plan (node : Expr) (fresh : String → Spliced String) (entries : List EntryPlan) : Plan :=
  let within (span : Span) (old : Expr) : Spliced (List TextEdit) :=
    if sameContainer old node then baseline.entryEdits span (Entry.ofExpr old) entries fresh
    else pure []
  let text (indent : String) : Spliced String :=
    match node.span.bind fun span =>
        ((baseline.tree.placedAt? span).filter (isReusable · node)).map (span, ·) with
    | some (span, old) => do baseline.movedText span (← within span old) indent
    | none => fresh indent
  let edits (old : Expr) : Spliced (List TextEdit) :=
    match old.span with
    | none => pure []
    | some span =>
      if isReusable old node then within span old
      else baseline.replacement span span.start text
  { node := node, edits, text }

/-- The plan of an item. -/
def itemPlan (plan : Plan) : EntryPlan where
  origin := plan.node.origin
  edits := fun
    | .item old => plan.edits old
    | .prop _ => pure []
  text := plan.text

/-- Renames the key of a property. A key in quotes stays in quotes, and a shorthand gets
    its value written out. -/
def keyEdits (old : Property) (key : Key) : List TextEdit :=
  match old.keySpan with
  | some span =>
    if old.key = key then []
    else
      let name :=
        match old.key, key.name with
        | .str _, some name => baseline.style.string name
        | _, _ => baseline.style.key key
      let text :=
        if old.value.span = some span then name ++ ": " ++ span.slice baseline.source else name
      [.replace span.start span.stop text]
  | none => []

/-- The edits that turn a property of the first tree into one of the draft. -/
def propEdits (old : Property) (key : Key) (value : Plan) : Spliced (List TextEdit) := do
  let valueEdits ←
    if old.value.origin = value.node.origin then value.edits old.value
    else
      match old.value.span with
      | some span => do
        let indent := (old.origin.span.map (Text.indentAt baseline.source ·.start)).getD ""
        pure [.replace span.start span.stop (← value.text indent)]
      | none => pure []
  pure (baseline.keyEdits old key ++ valueEdits)

/-- The plan of a property from the plan of its value. -/
def propPlan (origin : Origin) (key : Key) (value : Plan) : EntryPlan where
  origin := origin
  edits := fun
    | .prop old => baseline.propEdits old key value
    | .item _ => pure []
  text := fun indent =>
    match origin.span.bind fun span => (baseline.tree.placedPropAt? span).map (span, ·) with
    | some (span, old) => do baseline.movedText span (← baseline.propEdits old key value) indent
    | none => do
      let text ← value.text indent
      match key with
      | .spread => pure ("..." ++ text)
      | _ => pure (baseline.style.key key ++ ": " ++ text)

mutual

/-- The plan of a tree. -/
def planOf : Expr → Plan
  | .object origin props =>
    let entries := planOfProps props
    baseline.plan (.object origin props) (baseline.objectText entries) entries
  | .array origin items =>
    let entries := planOfItems items
    baseline.plan (.array origin items) (baseline.arrayText items entries) entries
  | .member origin base property =>
    let inner := planOf base
    baseline.plan (.member origin base property)
      (fun indent => do pure ((← inner.text indent) ++ "." ++ property)) []
  | .call origin callee args =>
    let inner := planOf callee
    let entries := planOfItems args
    baseline.plan (.call origin callee args) (callText inner entries) []
  | expr => baseline.plan expr (fun _ => pure (baseline.leafText expr)) []

/-- The plans of items. -/
def planOfItems : List Expr → List EntryPlan
  | [] => []
  | item :: rest => itemPlan (planOf item) :: planOfItems rest

/-- The plans of properties. -/
def planOfProps : List (PropertyOf Expr) → List EntryPlan
  | [] => []
  | ⟨origin, key, _, value⟩ :: rest =>
    baseline.propPlan origin key (planOf value) :: planOfProps rest

end

/-- The edits that turn the text of the tree into that of the draft, in order. -/
def diff (draft : Expr) : Spliced (List TextEdit) := do
  let plan := baseline.planOf draft
  let edits ←
    if draft.origin = baseline.tree.origin then plan.edits baseline.tree
    else
      match baseline.tree.span with
      | some span => baseline.replacement span span.start plan.text
      | none => pure []
  TextEdit.normalize edits

end Baseline

end Statechart
