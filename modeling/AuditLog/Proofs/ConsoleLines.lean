import AuditLog.Console.Command
import AuditLog.Proofs.TextPieces

/-! What is read from a console line that is put together from words. A value is kept as text,
with a space for each underscore, unless it reads as a number or as a truth value. -/
namespace AuditLog.Console

/-- The text is neither a number nor a truth value. -/
def IsText (s : String) : Prop :=
  Text.int64? s = none ∧ (Double.ofText? s).filter Double.isFinite = none ∧
    s ≠ "true" ∧ s ≠ "false"

instance (s : String) : Decidable (IsText s) := inferInstanceAs (Decidable (_ ∧ _ ∧ _ ∧ _))

/-- A space for each underscore. -/
def spaced (s : String) : String := s.map fun c => if c == '_' then ' ' else c

theorem spaced_eq_self {s : String} : spaced s = s ↔ '_' ∉ s.toList := by
  rw [← String.toList_inj, spaced, String.toList_map]
  induction s.toList with
  | nil => simp
  | cons c rest ih =>
    rw [List.map_cons, List.cons.injEq, ih, List.mem_cons, not_or]
    by_cases mark : c = '_'
    · simp [mark]
    · simp [mark, Ne.symm mark]

namespace Command

/-- What a value is read as: a whole number, a finite one, a truth value or text. -/
theorem valueOf_cases (s : String) :
    (IsText s ∧ valueOf s = .text (spaced s)) ∨
      (¬ IsText s ∧ ((∃ i, valueOf s = .int i) ∨ (∃ x, valueOf s = .double x ∧ x.isFinite = true) ∨
        ∃ b, valueOf s = .bool b)) := by
  unfold valueOf
  cases whole : Text.int64? s with
  | some i => exact .inr ⟨by simp [IsText, whole], .inl ⟨i, rfl⟩⟩
  | none =>
    cases number : (Double.ofText? s).filter Double.isFinite with
    | some x =>
      have finite : x.isFinite = true := by
        obtain ⟨-, finite⟩ := Option.filter_eq_some_iff.mp number
        exact finite
      exact .inr ⟨by simp [IsText, number], .inr (.inl ⟨x, rfl, finite⟩)⟩
    | none =>
      by_cases yes : s = "true"
      · exact .inr ⟨by simp [IsText, yes], .inr (.inr ⟨true, by simp [yes]⟩)⟩
      · by_cases no : s = "false"
        · exact .inr ⟨by simp [IsText, no], .inr (.inr ⟨false, by simp [no]⟩)⟩
        · refine .inl ⟨⟨whole, number, yes, no⟩, ?_⟩
          simp [yes, no, spaced]

theorem valueOf_of_kinds {motive : Datum → Prop} (text : ∀ s, motive (.text s))
    (int : ∀ i, motive (.int i)) (double : ∀ x, x.isFinite = true → motive (.double x))
    (bool : ∀ b, motive (.bool b)) (s : String) : motive (valueOf s) := by
  rcases valueOf_cases s with ⟨-, read⟩ | ⟨-, ⟨i, read⟩ | ⟨x, read, finite⟩ | ⟨b, read⟩⟩
  · exact read ▸ text _
  · exact read ▸ int i
  · exact read ▸ double x finite
  · exact read ▸ bool b

theorem isPrimitive_valueOf (s : String) : (valueOf s).isPrimitive = true := by
  refine valueOf_of_kinds (motive := fun v => v.isPrimitive = true) ?_ ?_ ?_ ?_ s <;> intros <;> rfl

theorem hasNonFinite_valueOf (s : String) : (valueOf s).hasNonFinite = false := by
  refine valueOf_of_kinds (motive := fun v => v.hasNonFinite = false) ?_ ?_ ?_ ?_ s
  · exact fun _ => rfl
  · exact fun _ => rfl
  · intro x finite
    simp [Datum.hasNonFinite, finite]
  · exact fun _ => rfl

theorem record?_valueOf (s : String) : (valueOf s).record? = none := by
  refine valueOf_of_kinds (motive := fun v => v.record? = none) ?_ ?_ ?_ ?_ s <;> intros <;> rfl

theorem instant?_valueOf (s : String) : (valueOf s).instant? = none := by
  refine valueOf_of_kinds (motive := fun v => v.instant? = none) ?_ ?_ ?_ ?_ s <;> intros <;> rfl

theorem valueOf_eq_text {s t : String} : valueOf s = .text t ↔ IsText s ∧ t = spaced s := by
  rcases valueOf_cases s with ⟨isText, text⟩ | ⟨isOther, ⟨i, int⟩ | ⟨x, double, -⟩ | ⟨b, bool⟩⟩
  · simp [text, isText, eq_comm]
  · simp [int, isOther]
  · simp [double, isOther]
  · simp [bool, isOther]

section Lines

variable {line word arguments event field value : String}

/-- A line that is one word. -/
theorem parse_word (solid : Text.Solid word) :
    parse word = (ofWord (Text.lower word) "").map some := by
  rw [parse, solid.unpadded.trimList_eq]
  split
  next empty => exact absurd empty solid.present
  next =>
    rw [Text.cutWhere_run solid.unblank]
    simp only [Option.getD_none, String.ofList_toList]
    rfl

/-- A line that is a word and what stands after it. -/
theorem parse_words (solid : Text.Solid word) (unpadded : Text.Unpadded arguments)
    (text : line.toList = word.toList ++ ' ' :: arguments.toList) :
    parse line = (ofWord (Text.lower word) arguments).map some := by
  rw [parse, (solid.unpadded.join unpadded text).trimList_eq, text]
  split
  next empty => simp at empty
  next =>
    rw [Text.cutWhere_append solid.unblank (by decide)]
    simp only [Option.getD_some, String.ofList_toList, unpadded.trimList_eq]

theorem assignment?_eq (keyed : field ≠ "") (run : '=' ∉ field.toList) (valued : value ≠ "") :
    assignment? (field ++ "=" ++ value) = .ok (.parse field, valueOf value) := by
  have text : (field ++ "=" ++ value).toList = field.toList ++ '=' :: value.toList := by
    simp [String.toList_append]
  rw [assignment?, Text.cutFirst_append text run]
  simp [keyed, valued]

/-- Recording an event with one value. -/
theorem parse_record (named : Text.Solid event) (keyed : Text.Solid field)
    (run : '=' ∉ field.toList) (path : Path.parse field = .of field) (valued : Text.Solid value) :
    parse ("record " ++ event ++ " " ++ field ++ "=" ++ value) =
      .ok (some (.record (Text.lower event) [(field, valueOf value)])) := by
  have token : (field ++ "=" ++ value).toList = field.toList ++ '=' :: value.toList := by
    simp [String.toList_append]
  have solid := keyed.join valued (by decide) token
  have arguments : (event ++ " " ++ (field ++ "=" ++ value)).toList =
      event.toList ++ ' ' :: (field ++ "=" ++ value).toList := by
    simp [String.toList_append]
  have line : ("record " ++ event ++ " " ++ field ++ "=" ++ value).toList =
      "record".toList ++ ' ' :: (event ++ " " ++ (field ++ "=" ++ value)).toList := by
    simp [String.toList_append]
  have present {s : String} (solid : Text.Solid s) : s ≠ "" := by
    rintro rfl
    exact solid.present rfl
  have record : ofWord (Text.lower "record") (event ++ " " ++ (field ++ "=" ++ value)) =
      recordOf (event ++ " " ++ (field ++ "=" ++ value)) := rfl
  have word : Text.Solid "record" := by decide
  rw [parse_words word (named.unpadded.join solid.unpadded arguments) line, record, recordOf,
    named.words_append arguments, solid.words_eq]
  simp only [List.mapM_cons, List.mapM_nil, assignment?_eq (present keyed) run (present valued),
    path]
  rfl

/-- Searching for one value of a field, without grouping. -/
theorem parse_search (keyed : Text.Solid field) (valued : Text.Solid value) :
    parse ("search " ++ field ++ ":" ++ value ++ " -ng") =
      .ok (some (.search (field ++ ":" ++ value ++ " -ng"))) ∧
    Text.words (field ++ ":" ++ value ++ " -ng") = [field ++ ":" ++ value, "-ng"] := by
  have token : (field ++ ":" ++ value).toList = field.toList ++ ':' :: value.toList := by
    simp [String.toList_append]
  have solid := keyed.join valued (by decide) token
  have flag : Text.Solid "-ng" := by decide
  have arguments : (field ++ ":" ++ value ++ " -ng").toList =
      (field ++ ":" ++ value).toList ++ ' ' :: "-ng".toList := by
    simp [String.toList_append]
  have line : ("search " ++ field ++ ":" ++ value ++ " -ng").toList =
      "search".toList ++ ' ' :: (field ++ ":" ++ value ++ " -ng").toList := by
    simp [String.toList_append]
  have word : Text.Solid "search" := by decide
  constructor
  · rw [parse_words word (solid.unpadded.join flag.unpadded arguments) line]
    rfl
  · rw [solid.words_append arguments, flag.words_eq]

end Lines
end Command
end AuditLog.Console
