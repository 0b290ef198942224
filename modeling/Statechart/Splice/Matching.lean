import Statechart.Splice.Entry
import Statechart.Splice.TextEdit
import Statechart.Text.Trivia

/-!
# Matching entries

The entries of a literal before and after an edit are matched by their origins, in
order. An entry that has moved back counts as deleted and inserted anew.

* `matchFrom`: for each new entry, the position of the old one that it keeps;
* `deletion`: the edits that delete an old entry;
* `insertion`: the edits that insert a run of new entries behind a kept one;
* `runs`: the runs of new entries, each with the kept entry before it.
-/

namespace Statechart.Splice

/-- The position of the last old entry of an origin that has a place. -/
def positionOf? (old : List Entry) (origin : Origin) : Option Nat :=
  ((old.zipIdx.reverse.find? fun (entry, _) =>
    entry.span.isSome && entry.origin == origin)).map (·.2)

/-- For each new entry the position of the old entry that it keeps, if that lies at
    `bound` or behind, and so behind all that are kept before it. -/
def matchFrom (old : List Entry) (bound : Nat) : List Origin → List (Option Nat)
  | [] => []
  | origin :: rest =>
    match (positionOf? old origin).filter (bound ≤ ·) with
    | some i => some i :: matchFrom old (i + 1) rest
    | none => none :: matchFrom old bound rest

/-- The new entries that keep no old one, in runs without a kept entry between them,
    each with the position of the kept entry before it. -/
def runsFrom (anchor : Option Nat) (run : List α) :
    List (α × Option Nat) → List (Option Nat × List α)
  | [] => if run.isEmpty then [] else [(anchor, run)]
  | (entry, none) :: rest => runsFrom anchor (run ++ [entry]) rest
  | (_, some i) :: rest =>
    (if run.isEmpty then [] else [(anchor, run)]) ++ runsFrom (some i) [] rest

/-- The runs of new entries. -/
def runs (entries : List (α × Option Nat)) : List (Option Nat × List α) :=
  runsFrom none [] entries

/-- Whether a position directly follows a line feed. -/
def followsLineFeed (source : Bytes) (pos : Nat) : Bool :=
  0 < pos && source[pos - 1]? == some Text.lineFeed

/-- The last kept position before `i`. -/
def keptBefore? (kept : List Nat) (i : Nat) : Option Nat :=
  kept.reverse.find? (· < i)

/-- Whether a position behind `i` is kept. -/
def keepsAfter (kept : List Nat) (i : Nat) : Bool :=
  kept.any (i < ·)

/-- Deletes the comma of the last kept entry when the entry behind it, which had none,
    is deleted. -/
def commaFix (source : Bytes) (old : List Entry) (kept : List Nat) (i : Nat) (span : Span) :
    List TextEdit :=
  if keepsAfter kept i || (Text.commaAfter source span.stop).isSome then []
  else
    let comma := do
      let j ← keptBefore? kept i
      let before ← (← old[j]?).span
      Text.commaAfter source before.stop
    comma.toList.map fun stop => .delete (stop - 1) stop

/-- Deletes an entry within its line: up to the next entry if one is kept behind it,
    else from the end of the kept entry before it. -/
def inlineDeletion (old : List Entry) (kept : List Nat) (i : Nat) (span : Span) : TextEdit :=
  if keepsAfter kept i then
    .delete span.start (((old[i + 1]?.bind (·.span)).map (·.start)).getD span.stop)
  else
    match keptBefore? kept i with
    | some j => .delete (((old[j]?.bind (·.span)).map (·.stop)).getD span.start) span.stop
    | none => .delete span.start span.stop

/-- Deletes the entry at position `i`. In a literal over several lines an entry that
    starts and ends a line goes with the comment lines above it and with its tail;
    `fixComma` tells whether the comma before the end of the literal is to be mended. -/
def deletion (source : Bytes) (multiline fixComma : Bool) (old : List Entry) (kept : List Nat)
    (i : Nat) (span : Span) : List TextEdit :=
  let stop := Text.itemTailEnd source span.stop
  if multiline && Text.startsLine source span.start && followsLineFeed source stop then
    .delete (Text.leadingCommentStart source span.start) stop
      :: (if fixComma then commaFix source old kept i span else [])
  else [inlineDeletion old kept i span]

/-- Deletes every old entry that is not kept. Entries without a place stand nowhere. -/
def deletions (source : Bytes) (multiline fixComma : Bool) (old : List Entry)
    (kept : List Nat) : List TextEdit :=
  old.zipIdx.flatMap fun (entry, i) =>
    match entry.span with
    | some span =>
      if kept.contains i then [] else deletion source multiline fixComma old kept i span
    | none => []

/-- Each text with a text before and after it. -/
def surround (before after : String) (texts : List String) : String :=
  String.join (texts.map fun text => before ++ text ++ after)

/-- Inserts texts before the entry at `span`, the first that is kept. -/
def insertionBefore (source : Bytes) (ownLine : Bool) (span : Span) (texts : List String) :
    List TextEdit :=
  if ownLine then
    [.insert (Text.leadingCommentStart source span.start)
      (surround (Text.indentAt source span.start) ",\n" texts)]
  else [.insert span.start (surround "" ", " texts)]

/-- Whether the rest of the line holds nothing, or only a line comment. -/
def endsLine (source : Bytes) (pos : Nat) : Bool :=
  let rest := Text.trimChars (source.slice pos (Text.lineEnd source pos)).toList
  rest.isEmpty || (Text.afterStart? ['/', '/'] rest).isSome

/-- Inserts texts behind the entry at `span`. When it is on a line of its own, so are
    they: behind its comma and tail, or with a comma added to it when it has none. -/
def insertionAfter (source : Bytes) (ownLine : Bool) (span : Span) (texts : List String) :
    List TextEdit :=
  let inline : List TextEdit := [.insert span.stop (surround ", " "" texts)]
  let indent := Text.indentAt source span.start
  if ownLine then
    match Text.commaAfter source span.stop with
    | some comma =>
      let tail := Text.itemTailEnd source span.stop
      if followsLineFeed source tail then [.insert tail (surround indent ",\n" texts)]
      else [.insert comma (surround " " "," texts)]
    | none =>
      if endsLine source span.stop then
        [.insert span.stop ",",
          .insert (Text.lineEnd source span.stop)
            (String.intercalate "," (texts.map fun text => "\n" ++ indent ++ text))]
      else inline
  else inline

end Statechart.Splice
