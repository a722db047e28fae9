import TreeMigration.Proofs.CommandLine.ExitStatus
import TreeMigration.Proofs.Json.Printing

/-!
Reports as JSON. A reader that asks an object for its members by name gets back the report that was
printed, so nothing is lost in print and different reports are printed differently.

The reader is written here, one function for each layer of a report, and knows the names of the
members but not the printer. `ofValue?_value` says that it inverts the JSON value of a report; that
a printed value is read as that value is the theorem on printing, which asks for numbers within the
range a reader accepts. `InRange` is that condition for reports: every count is a machine word. The
texts in it may be any.

The status line in front of the JSON holds no line break, so it can be told from what follows
(`newline_not_mem_status`).
-/
namespace TreeMigration

/-! ## Reading a report -/

namespace Report

def countOf? : Json.Value → Option Nat
  | .number digits =>
    if digits.all Char.isDigit then some (Nat.ofDigitChars 10 digits 0) else none
  | _ => none

def textOf? : Json.Value → Option Text
  | .string t => some t
  | _ => none

def itemsOf? : Json.Value → Option (List Json.Value)
  | .array items => some items
  | _ => none

def membersOf? : Json.Value → Option Json.Members
  | .object members => some members
  | _ => none

/-- The difference that members tell of, by its kind. -/
def differenceOf? (members : Json.Members) : Option Difference := do
  let kind ← (members.find? "kind").bind textOf?
  let produced := members.find? "produced"
  let reference := members.find? "reference"
  if kind = "missing_reference" then
    some (.missingReference ⟨← reference.bind textOf?⟩)
  else if kind = "line_count" then
    some (.lineCount (← produced.bind countOf?) (← reference.bind countOf?))
  else if kind = "line" then
    let number ← (members.find? "line").bind countOf?
    some (.line number (← produced.bind textOf?) (← reference.bind textOf?))
  else none

def mismatchOf? (value : Json.Value) : Option Mismatch := do
  let members ← membersOf? value
  let file ← (members.find? "file").bind textOf?
  some ⟨⟨file⟩, ← differenceOf? members⟩

/-- The report that a JSON value tells of. -/
def ofValue? (value : Json.Value) : Option Report := do
  let members ← membersOf? value
  let filesChecked ← (members.find? "files_checked").bind countOf?
  let listed ← (members.find? "mismatches").bind itemsOf?
  some ⟨filesChecked, ← listed.mapM mismatchOf?⟩

theorem countOf?_count (n : Nat) : countOf? (count n) = some n := by
  have digits : (Text.ofNat n).all Char.isDigit = true :=
    List.all_eq_true.mpr fun c member => Text.isDigit_of_mem_ofNat member
  have value : Nat.ofDigitChars 10 (Text.ofNat n) 0 = n := Nat.ofDigitChars_ten_toDigits
  rw [count, countOf?, if_pos digits, value]

theorem differenceOf?_differenceMembers (file : Json.Value) (difference : Difference) :
    differenceOf? (("file", file) :: differenceMembers difference) = some difference := by
  cases difference with
  | missingReference reference => rfl
  | lineCount produced reference =>
    change ((countOf? (count produced)).bind fun produced =>
      (countOf? (count reference)).bind fun reference =>
        some (Difference.lineCount produced reference)) = _
    rw [countOf?_count, countOf?_count]
    rfl
  | line number produced reference =>
    change ((countOf? (count number)).bind fun number =>
      some (Difference.line number produced reference)) = _
    rw [countOf?_count]
    rfl

theorem mismatchOf?_mismatchValue (mismatch : Mismatch) :
    mismatchOf? (mismatchValue mismatch) = some mismatch := by
  obtain ⟨file, difference⟩ := mismatch
  have named : Json.Members.find? (("file", .string file.text) :: differenceMembers difference)
      "file" = some (.string file.text) := by
    cases difference <;> rfl
  simp only [mismatchOf?, mismatchValue, membersOf?, Option.bind_eq_bind, Option.bind_some, named,
    textOf?, differenceOf?_differenceMembers]

/-- What a report is as a JSON value is read as that report. -/
theorem ofValue?_value (report : Report) : ofValue? report.value = some report := by
  obtain ⟨filesChecked, mismatches⟩ := report
  have each : (mismatches.map mismatchValue).mapM mismatchOf? = some mismatches := by
    induction mismatches with
    | nil => rfl
    | cons mismatch later ih =>
      simp [List.mapM_cons, mismatchOf?_mismatchValue, ih]
  change ((countOf? (count filesChecked)).bind fun filesChecked =>
    ((mismatches.map mismatchValue).mapM mismatchOf?).bind fun mismatches =>
      some (Report.mk filesChecked mismatches)) = _
  rw [countOf?_count, each]
  rfl

/-! ## Printing a report -/

end Report

def Difference.InRange : Difference → Prop
  | .missingReference _ => True
  | .lineCount produced reference => produced < Nat.pow 2 64 ∧ reference < Nat.pow 2 64
  | .line number _ _ => number < Nat.pow 2 64

namespace Report

/-- All counts of the report are machine words; its texts are any. -/
structure InRange (report : Report) : Prop where
  filesChecked : report.filesChecked < Nat.pow 2 64
  mismatches : ∀ mismatch ∈ report.mismatches, mismatch.difference.InRange

theorem fits_count {n : Nat} (small : n < Nat.pow 2 64) (allowance : Nat) :
    (count n).Fits allowance :=
  .count allowance (Nat.le_sub_one_of_lt small)

theorem fits_mismatchValue {mismatch : Mismatch} (inRange : mismatch.difference.InRange)
    (allowance : Nat) : (mismatchValue mismatch).Fits (allowance + 1) := by
  refine .object (List.forall_mem_cons.mpr ⟨.string _ _, ?_⟩)
  obtain ⟨file, difference⟩ := mismatch
  cases difference with
  | missingReference reference =>
    simp [differenceMembers, Json.Value.Fits.string]
  | lineCount produced reference =>
    simp [differenceMembers, Json.Value.Fits.string, fits_count inRange.1, fits_count inRange.2]
  | line number produced reference =>
    simp [differenceMembers, Json.Value.Fits.string, fits_count inRange]

theorem InRange.fits {report : Report} (inRange : report.InRange) :
    report.value.Fits Json.depthLimit := by
  refine .object (List.forall_mem_cons.mpr ⟨fits_count inRange.filesChecked _, ?_⟩)
  refine List.forall_mem_singleton.mpr (.array ?_)
  intro item listed
  obtain ⟨mismatch, member, rfl⟩ := List.mem_map.mp listed
  exact fits_mismatchValue (inRange.mismatches mismatch member) _

theorem newline_not_mem_status (report : Report) : '\n' ∉ report.status := by
  unfold status
  split
  · decide
  · have digits : '\n' ∉ Text.ofNat report.mismatches.length := by
      intro member
      cases Text.isDigit_of_mem_ofNat member
    simp [digits]

end Report

namespace CommandLine

/-- What is printed behind the status line where JSON is asked for. -/
theorem reportText_json (report : Report) :
    reportText true report = report.status ++ '\n' :: (report.json ++ ['\n']) := by
  simp [reportText, Text.ofLines]

/-- A report printed as JSON loses nothing. Behind the status line stands one JSON text, which is
read as the very same report; so no other report is printed the same. An execution that is asked for
JSON prints it just so. -/
theorem json_report_read_back {report : Report} (inRange : report.InRange) :
    '\n' ∉ report.status ∧
    ∃ printed, reportText true report = report.status ++ '\n' :: printed ∧
      (∃ value, Json.Value.ofText printed = .ok value ∧ Report.ofValue? value = some report) ∧
      (∀ other : Report, other.InRange →
        reportText true other = other.status ++ '\n' :: printed → other = report) ∧
      ∀ (invocation : Invocation) (files : FileSystem) (completion : Completion),
        invocation.json = true → (execute invocation files).result = .ok completion →
        completion.report = some report →
        (execute invocation files).output =
          passesText ++ Stage.comparison.label ++ report.status ++ '\n' :: printed := by
  have readBack : ∀ other : Report, other.InRange →
      Json.Value.ofText (other.json ++ ['\n']) = .ok other.value := fun other fits =>
    Json.ofText_pretty fits.fits ⟨['\n'], List.forall_mem_singleton.mpr rfl⟩
  refine ⟨report.newline_not_mem_status, _, reportText_json report,
    ⟨_, readBack report inRange, report.ofValue?_value⟩, ?_, ?_⟩
  · intro other otherInRange same
    rw [reportText_json] at same
    have one := (List.cons.inj (List.append_cancel_left same)).2
    have value := readBack other otherInRange
    rw [one, readBack report inRange, Except.ok.injEq] at value
    have told := other.ofValue?_value
    rw [← value, report.ofValue?_value] at told
    exact (Option.some.inj told).symm
  · intro invocation files completion asked done compared
    obtain ⟨changed, completes⟩ := completes_of_execute done
    rw [completes.execute_eq.2.2, compared, asked, Option.elim_some, reportText_json]
    simp

namespace Mixed

/-- All kinds of mismatches, with texts that need escapes and the largest count there is. -/
def report : Report where
  filesChecked := 3
  mismatches := [
    ⟨⟨"out/a\"b\\c.swift"⟩, .missingReference ⟨"ref/\u00e9\n\x01.swift"⟩⟩,
    ⟨⟨"out/d.swift"⟩, .lineCount 0 18446744073709551615⟩,
    ⟨⟨"out/e.swift"⟩, .line 2 "\tlet s = \"\u00fc\"\x0c" "\\u0041\x7f\u20ac"⟩]

theorem inRange : report.InRange :=
  ⟨by decide, by simp [report, Difference.InRange]⟩

end Mixed

/-- The two mismatches that tell of a number and of a text under the same names are told apart. -/
theorem json_report_read_back_mixed :
    Mixed.report.InRange ∧ ∃ printed value,
      reportText true Mixed.report = "finished - 3 ERRORS".toList ++ '\n' :: printed ∧
      Json.Value.ofText printed = .ok value ∧ Report.ofValue? value = some Mixed.report := by
  obtain ⟨-, printed, whole, ⟨value, valid, told⟩, -, -⟩ := json_report_read_back Mixed.inRange
  exact ⟨Mixed.inRange, printed, value, whole, valid, told⟩

end CommandLine

end TreeMigration
