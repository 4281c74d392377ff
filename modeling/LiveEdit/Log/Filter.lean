import LiveEdit.Log.Directive

/-!
Which log records are shown. A filter is written as directives with commas between them. Of the
general directives about a record the most specific decides; one about an activity can show more
of what happens there.
-/

namespace LiveEdit

structure LogFilter where
  directives : List LogDirective
  deriving DecidableEq, Repr

namespace LogFilter

/-- Of directives about the same only the last counts. -/
def lastWords : List LogDirective → List LogDirective
  | [] => []
  | d :: ds => if ds.any d.sameSubject then lastWords ds else d :: lastWords ds

/-- Without any directive only errors are shown. -/
def ofDirectives (directives : List LogDirective) : LogFilter :=
  ⟨if directives.isEmpty then [{ threshold := some .error }] else lastWords directives⟩

/--
Reads a filter, and says of each directive that is none why it is left out. There is no filter if
the parts of a directive cannot be told apart; what comes after it is not read.
-/
def read (text : String) : Option LogFilter × List String :=
  let pieces := ((text.splitOn ",").filter (· ≠ "")).map fun p => (p, LogDirective.parse p)
  let sound := pieces.takeWhile (isSound ·.2)
  (if sound.length < pieces.length then none
    else some (ofDirectives (sound.filterMap (·.2.toOption))),
    sound.filterMap fun (p, directive) =>
      match directive with
      | .ok _ => none
      | .error e => some ("ignoring \x60" ++ p ++ "\x60: " ++ e.message))
where
  isSound : Except DirectiveError LogDirective → Bool
    | .error .brokenCharacter => false
    | _ => true

/-- The directive that decides on a record, if activities are no matter. -/
def directiveFor? (f : LogFilter) (r : LogRecord) : Option LogDirective :=
  (f.directives.filter (·.meansRecord r)).foldl (fun best d =>
    if best.all d.outranks then some d else best) none

/--
Whether activities are noticed at all: some directive admits their level, or a value has to be
compared.
-/
def noticesSpans (f : LogFilter) : Bool :=
  f.directives.any fun d => d.hasValueTest || d.threshold.admits LogSpan.level

/-- A record within an activity that a directive means is shown, whatever its target. -/
def shows (f : LogFilter) (r : LogRecord) : Bool :=
  (f.directiveFor? r).any (·.threshold.admits r.level) ||
    f.noticesSpans && r.spans.any fun span =>
      f.directives.any fun d => d.meansSpan span && d.threshold.admits r.level

end LogFilter

end LiveEdit
