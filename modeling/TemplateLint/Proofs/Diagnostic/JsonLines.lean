import TemplateLint.Proofs.Json.RoundTrip
import TemplateLint.Run.Results

/-!
# Problems as lines of JSON

Each problem takes one line of printable characters, and reading the line gives back all
that the problem says (`Diagnostic.Described`). So different problems have different lines, and
different lists of problems have different texts.
-/

namespace TemplateLint

open TemplateLint.Diagnostic

namespace Diagnostic

/-- A value gives what a problem says, member by member. -/
structure Described (diagnostic : Diagnostic) (value : Json) : Prop where
  file : value.get? "file" = some (.text diagnostic.location.file)
  line : value.get? "line" = some (.int diagnostic.location.line)
  column : value.get? "column" = some (.int diagnostic.location.column)
  severity : value.get? "severity" = some (.text diagnostic.severity.text)
  message : value.get? "message" = some (.text diagnostic.message)
  errorId : value.get? "errorId" = some (.text diagnostic.errorId)
  rule : value.get? "rule" = some (.text diagnostic.rule)
  nodeType : value.get? "nodeType"
    = if diagnostic.nodeType = "" then none else some (.text diagnostic.nodeType)

theorem described_toJson (diagnostic : Diagnostic) : Described diagnostic diagnostic.toJson := by
  by_cases bare : diagnostic.nodeType = "" <;>
    constructor <;> simp [toJson, Json.get?, Entries.find?_cons, bare]

theorem severity_text_injective : ∀ first second : Severity, first.text = second.text →
    first = second := by
  rintro ⟨⟩ ⟨⟩ <;> decide

theorem Described.unique {first second : Diagnostic} {value : Json}
    (one : Described first value) (other : Described second value) : first = second := by
  have texts : ∀ {name a b}, value.get? name = some (.text a) → value.get? name = some (.text b) →
      a = b := fun left right => Json.text.inj (Option.some.inj (left.symm.trans right))
  have numbers : ∀ {name a b}, value.get? name = some (.int a) → value.get? name = some (.int b) →
      a = b := fun left right => Json.int.inj (Option.some.inj (left.symm.trans right))
  have severities := severity_text_injective _ _ (texts one.severity other.severity)
  have nodeTypes : first.nodeType = second.nodeType := by
    have same := one.nodeType.symm.trans other.nodeType
    split at same <;> split at same <;> simp_all
  obtain ⟨id, message, severity, ⟨file, line, column⟩, rule, nodeType⟩ := first
  obtain ⟨id', message', severity', ⟨file', line', column'⟩, rule', nodeType'⟩ := second
  obtain rfl : file = file' := texts one.file other.file
  obtain rfl : line = line' := numbers one.line other.line
  obtain rfl : column = column' := numbers one.column other.column
  obtain rfl : message = message' := texts one.message other.message
  obtain rfl : id = id' := texts one.errorId other.errorId
  obtain rfl : rule = rule' := texts one.rule other.rule
  obtain rfl : severity = severity' := severities
  obtain rfl : nodeType = nodeType' := nodeTypes
  rfl

/-- The line and the column of a problem have no more digits than a limit. -/
def Keeps (diagnostic : Diagnostic) (limit : Nat) : Prop :=
  ∀ number ∈ [diagnostic.location.line, diagnostic.location.column],
    (Json.digitsOf number).length ≤ limit

theorem readsBack_toJson {diagnostic : Diagnostic} {limit? : Option Nat}
    (keeps : ∀ limit ∈ limit?, diagnostic.Keeps limit) :
    Json.ReadsBack limit? diagnostic.toJson := by
  have number : ∀ number ∈ [diagnostic.location.line, diagnostic.location.column],
      Json.ReadsBack limit? (.int number) := by
    intro number member
    cases limit? with
    | none => exact .int number rfl
    | some limit => exact .int number (by simpa using keeps limit rfl number member)
  refine .object _ ?_ ?_
  · by_cases bare : diagnostic.nodeType.isEmpty <;> simp [bare, Entries.names]
  · intro member found
    simp only [List.mem_append, List.mem_cons, List.not_mem_nil, or_false] at found
    obtain (rfl | rfl | rfl | rfl | rfl | rfl | rfl) | node := found
    · exact .text _
    · exact number _ (.head _)
    · exact number _ (.tail _ (.head _))
    · exact .text _
    · exact .text _
    · exact .text _
    · exact .text _
    · split at node
      · cases node
      · rw [List.mem_singleton.1 node]
        exact .text _

theorem parseWith?_jsonLine {diagnostic : Diagnostic} {limit? : Option Nat}
    (keeps : ∀ limit ∈ limit?, diagnostic.Keeps limit) :
    Json.parseWith? limit? diagnostic.jsonLine = some diagnostic.toJson :=
  Json.parseWith?_render (readsBack_toJson keeps)

theorem all_isPrintable_jsonLine (diagnostic : Diagnostic) :
    diagnostic.jsonLine.toList.all Json.isPrintable = true := by
  have readable : Json.ReadsBack none diagnostic.toJson := readsBack_toJson (by rintro limit ⟨⟩)
  exact readable.all_isPrintable

theorem jsonLine_injective : Function.Injective jsonLine := by
  intro first second same
  have unlimited : ∀ diagnostic : Diagnostic, ∀ limit ∈ none, diagnostic.Keeps limit := by
    rintro diagnostic limit ⟨⟩
  have equal : first.toJson = second.toJson := by
    apply Option.some.inj
    rw [← parseWith?_jsonLine (unlimited first), ← parseWith?_jsonLine (unlimited second), same]
  exact (described_toJson first).unique (equal ▸ described_toJson second)

end Diagnostic

namespace Results

theorem splitOn_jsonLines {results : Results} (some : results.diagnostics ≠ []) :
    results.jsonLines.toList.splitOn '\n'
      = results.diagnostics.map fun diagnostic => diagnostic.jsonLine.toList := by
  have whole : ∀ line ∈ results.diagnostics.map fun diagnostic => diagnostic.jsonLine.toList,
      '\n' ∉ line := by
    intro line member found
    obtain ⟨diagnostic, -, rfl⟩ := List.mem_map.1 member
    exact absurd (List.all_eq_true.1 diagnostic.all_isPrintable_jsonLine _ found) (by decide)
  rw [jsonLines, String.toList_intercalate, List.map_map]
  exact List.splitOn_intercalate '\n' whole (by simpa using some)

/-- Problems are read back from their lines of JSON: the text has one line for each problem, in
order, and each line is printable ASCII. Read without a limit on the digits of integers, or under
the usual one if it is kept, a line gives a value that says what the problem says. So no two
problems have one line, and no two lists of problems one text. -/
theorem jsonLines_read_back (results : Results) (some : results.diagnostics ≠ []) :
    results.jsonLines.toList.splitOn '\n'
        = results.diagnostics.map (fun diagnostic => diagnostic.jsonLine.toList)
      ∧ (∀ diagnostic ∈ results.diagnostics,
          (∀ c ∈ diagnostic.jsonLine.toList, 0x20 ≤ c.toNat ∧ c.toNat ≤ 0x7e)
          ∧ ∃ value, Described diagnostic value
            ∧ Json.parseWith? none diagnostic.jsonLine = .some value
            ∧ (diagnostic.Keeps Json.maxDigits → Json.parse? diagnostic.jsonLine = .some value))
      ∧ Function.Injective Diagnostic.jsonLine
      ∧ ∀ other : Results, other.diagnostics ≠ [] → other.jsonLines = results.jsonLines →
          other.diagnostics = results.diagnostics := by
  refine ⟨splitOn_jsonLines some, ?_, jsonLine_injective, ?_⟩
  · intro diagnostic _
    refine ⟨?_, diagnostic.toJson, described_toJson diagnostic, ?_, ?_⟩
    · intro c member
      have printable := List.all_eq_true.1 diagnostic.all_isPrintable_jsonLine c member
      simp only [Json.isPrintable, Bool.and_eq_true, decide_eq_true_eq] at printable
      omega
    · exact parseWith?_jsonLine (by rintro limit ⟨⟩)
    · intro keeps
      exact parseWith?_jsonLine (by rintro limit ⟨⟩; exact keeps)
  · intro other others same
    have lines := (splitOn_jsonLines others).symm.trans
      ((congrArg (fun text : String => text.toList.splitOn '\n') same).trans
        (splitOn_jsonLines some))
    exact (List.map_inj_right
      fun first second equal => jsonLine_injective (String.toList_injective equal)).1 lines

/-- A problem whose texts hold marks, a line break and other controls, and the characters next
to the surrogates, at the end of those of one unit and at both ends of those of two. -/
def awkward : Diagnostic :=
  ⟨"\"\\", "\n\r\t\u0000\u0008\u000c\u007f", .warning,
    ⟨String.ofList ([0xd7ff, 0xe000, 0xffff].map Char.ofNat), -12, 0⟩, "",
    String.ofList ([0x10000, 0x10ffff].map Char.ofNat)⟩

theorem jsonLines_read_back_awkward :
    [awkward, awkward] ≠ []
      ∧ (⟨[awkward, awkward], [], [], [], []⟩ : Results).jsonLines.toList.splitOn '\n'
          = [awkward.jsonLine.toList, awkward.jsonLine.toList]
      ∧ awkward.Keeps Json.maxDigits
      ∧ ∃ value, Described awkward value ∧ Json.parse? awkward.jsonLine = some value := by
  have keeps : awkward.Keeps Json.maxDigits := by
    unfold Keeps
    decide
  obtain ⟨lines, each, -⟩ := jsonLines_read_back ⟨[awkward, awkward], [], [], [], []⟩ (by simp)
  obtain ⟨-, value, described, -, read⟩ := each awkward (.head _)
  exact ⟨by simp, lines, keeps, value, described, read keeps⟩

end Results

end TemplateLint
