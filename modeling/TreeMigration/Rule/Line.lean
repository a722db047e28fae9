import TreeMigration.Substitution

/-!
The one form a rule line may have: an object with the members `from`, `to` and `multiple`, in that
order, and blanks between the marks. The two values may hold anything but a line break, so a line
can often be divided in several ways; the longest `from` decides, and then the longest `to`.

The form is looser and stricter than JSON at once. A quote inside a value need not be escaped, the
value of `multiple` may be quoted, on either side, and one comma may follow the object. On the other
hand there may be blanks only where the form has them, before a name or a value and before the
closing brace, and not between that brace and the comma.

The divisions of a text are listed with the longest beginning first and the first that works is
taken, which is what a greedy search with backtracking finds. Escapes are resolved afterwards, by
replacing in the value, first the quotes and then the backslashes in a pattern, and only the
backslashes in a replacement.
-/
namespace TreeMigration.RuleLine

/-- The three values of a rule line as written, their escapes unresolved. -/
structure Fields where
  pattern : Text
  replacement : Text
  multiple : Bool
  deriving DecidableEq, Repr

def after? (mark t : Text) : Option Text := mark.isPrefixOf? t

def afterBlanks? (mark t : Text) : Option Text := after? mark (Text.trimStart t)

/-- The text after a mark, or all of it where the mark is not there. -/
def afterOptional (mark t : Text) : Text := (after? mark t).getD t

/-- The ways to divide a text after a beginning without a line break, the longest first. -/
def divisions : Text → List (Text × Text)
  | [] => [([], [])]
  | c :: rest =>
    if c = '\n' then [([], c :: rest)]
    else (divisions rest).map (fun d => (c :: d.1, d.2)) ++ [([], c :: rest)]

/-- The end of a line, from the quote that closes `to`: it gives the value of `multiple`. -/
def multiple? (t : Text) : Option Bool := do
  let t ← after? "\"," t
  let t ← afterBlanks? "\"multiple\":" t
  let t := afterOptional "\"" (Text.trimStart t)
  let (value, t) ←
    ((after? "true" t).map (true, ·)).or ((after? "false" t).map (false, ·))
  let t ← afterBlanks? "\x7d" (afterOptional "\"" t)
  if (afterOptional "," t).all Text.isBlank then some value else none

def replacement? (t : Text) : Option (Text × Bool) := do
  let t ← after? "\"," t
  let t ← afterBlanks? "\"to\":" t
  let t ← afterBlanks? "\"" t
  (divisions t).findSome? fun d => (multiple? d.2).map (d.1, ·)

/-- The values of a line that has the form of a rule. -/
def fields? (line : Text) : Option Fields := do
  let t ← afterBlanks? "\x7b" line
  let t ← afterBlanks? "\"from\":" t
  let t ← afterBlanks? "\"" t
  (divisions t).findSome? fun d => (replacement? d.2).map fun r => ⟨d.1, r.1, r.2⟩

/-- Resolves the escapes of a pattern: quotes first, then backslashes. -/
def decodePattern (t : Text) : Text :=
  Text.replaceAll "\\\\" "\\" (Text.replaceAll "\\\"" "\"" t)

/-- Resolves the escapes of a replacement, in which only backslashes are escaped. -/
def decodeReplacement (t : Text) : Text := Text.replaceAll "\\\\" "\\" t

def Fields.rule (fields : Fields) : Rule :=
  ⟨decodePattern fields.pattern, decodeReplacement fields.replacement, .ofMultiple fields.multiple⟩

end TreeMigration.RuleLine
