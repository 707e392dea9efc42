import AuditLog.Search.Compile
import Mathlib.Data.List.TakeWhile

/-! Cutting text that is put together from pieces gives the pieces back: at separators that do not
occur in the pieces, and at blanks around them. So an argument of a search that has no blanks is
read as it was written. -/
namespace AuditLog

namespace Text

/-- The text has no blanks and is not empty. -/
structure Solid (s : String) : Prop where
  unblank : ∀ c ∈ s.toList, isBlank c = false
  present : s.toList ≠ []

instance (s : String) : Decidable (Solid s) :=
  decidable_of_iff (s.toList.all (fun c => !isBlank c) = true ∧ s.toList ≠ []) <| by
    simp only [List.all_eq_true, Bool.not_eq_true']
    exact ⟨fun ⟨unblank, present⟩ => ⟨unblank, present⟩, fun solid => ⟨solid.1, solid.2⟩⟩

/-- Two such texts with a mark between them have no blanks either. -/
theorem Solid.join {a b s : String} {mark : Char} (left : Solid a) (right : Solid b)
    (dark : isBlank mark = false) (text : s.toList = a.toList ++ mark :: b.toList) : Solid s := by
  constructor
  · rw [text]
    exact List.forall_mem_append.mpr
      ⟨left.unblank, List.forall_mem_cons.mpr ⟨dark, right.unblank⟩⟩
  · rw [text]
    exact List.append_ne_nil_of_left_ne_nil left.present _

theorem isBlank_printable {c : Char} (low : 33 ≤ c.toNat) (high : c.toNat ≤ 126) :
    isBlank c = false := by
  simp only [isBlank, Bool.or_eq_false_iff, Bool.and_eq_false_iff, decide_eq_false_iff_not,
    beq_eq_false_iff_ne]
  omega

theorem toLower_eq {c : Char} (other : c.toNat < 65 ∨ 90 < c.toNat) : c.toLower = c := by
  apply dif_neg
  rintro ⟨low, high⟩
  change 65 ≤ c.toNat at low
  change c.toNat ≤ 90 at high
  omega

/-- Letter case does not matter for whether there are blanks. -/
theorem Solid.of_lower {s : String} (solid : Solid (lower s)) : Solid s := by
  have text : (lower s).toList = s.toList.map Char.toLower := String.toList_ofList
  constructor
  · intro c member
    by_cases printable : 33 ≤ c.toNat ∧ c.toNat ≤ 126
    · exact isBlank_printable printable.1 printable.2
    · have kept := solid.unblank c.toLower (text ▸ List.mem_map_of_mem member)
      rwa [toLower_eq (by omega)] at kept
  · intro empty
    apply solid.present
    rw [text, empty]
    rfl

/-- The text is not empty, and no blank stands at its ends. -/
structure Unpadded (s : String) : Prop where
  first : ∃ c, s.toList.head? = some c ∧ isBlank c = false
  last : ∃ c, s.toList.getLast? = some c ∧ isBlank c = false

theorem Solid.unpadded {s : String} (solid : Solid s) : Unpadded s := by
  constructor
  · obtain ⟨c, rest, text⟩ := List.exists_cons_of_ne_nil solid.present
    exact ⟨c, by rw [text]; rfl, solid.unblank c (by simp [text])⟩
  · have known := List.getLast?_eq_some_getLast solid.present
    exact ⟨_, known, solid.unblank _ (List.getLast_mem solid.present)⟩

theorem Unpadded.join {a b s : String} (left : Unpadded a) (right : Unpadded b) {mark : Char}
    (text : s.toList = a.toList ++ mark :: b.toList) : Unpadded s := by
  obtain ⟨c, front, dark⟩ := left.first
  obtain ⟨d, back, dark'⟩ := right.last
  refine ⟨⟨c, ?_, dark⟩, ⟨d, ?_, dark'⟩⟩
  · rw [text, List.head?_append, front]
    rfl
  · rw [text, List.getLast?_append, List.getLast?_cons, back]
    rfl

section Pieces

variable {p : Char → Bool} {before rest cs : List Char} {c : Char}

theorem splitWhere_run (run : ∀ c ∈ cs, p c = false) : splitWhere p cs = [cs] := by
  induction cs with
  | nil => rfl
  | cons c rest ih =>
    obtain ⟨here, later⟩ := List.forall_mem_cons.mp run
    rw [splitWhere, here, ih later]
    rfl

theorem splitWhere_append (run : ∀ c ∈ before, p c = false) (stop : p c = true) :
    splitWhere p (before ++ c :: rest) = before :: splitWhere p rest := by
  induction before with
  | nil => rw [List.nil_append, splitWhere, if_pos stop]
  | cons first others ih =>
    obtain ⟨here, later⟩ := List.forall_mem_cons.mp run
    rw [List.cons_append, splitWhere, here, ih later]
    rfl

theorem cutWhere_append (run : ∀ c ∈ before, p c = false) (stop : p c = true) :
    cutWhere p (before ++ c :: rest) = some (before, rest) := by
  have keeps : ∀ d ∈ before, (!p d) = true := by
    intro d member
    rw [run d member]
    rfl
  rw [cutWhere, List.dropWhile_append_of_pos keeps, List.takeWhile_append_of_pos keeps]
  simp [stop]

theorem cutWhere_run (run : ∀ c ∈ cs, p c = false) : cutWhere p cs = none := by
  have all : cs.dropWhile (fun d => !p d) = [] := by
    rw [List.dropWhile_eq_nil_iff]
    intro d member
    rw [run d member]
    rfl
  rw [cutWhere, all]

theorem trimStart_eq (front : cs.head? = some c) (dark : isBlank c = false) :
    trimStart cs = cs := by
  obtain ⟨rest, rfl⟩ := List.head?_eq_some_iff.mp front
  rw [trimStart, List.dropWhile_cons_of_neg]
  rw [dark]
  exact Bool.false_ne_true

end Pieces

theorem Unpadded.trimList_eq {s : String} (unpadded : Unpadded s) :
    trimList s.toList = s.toList := by
  obtain ⟨c, front, dark⟩ := unpadded.first
  obtain ⟨d, back, dark'⟩ := unpadded.last
  rw [← List.head?_reverse] at back
  rw [trimList, trimStart_eq front dark, trimStart_eq back dark', List.reverse_reverse]

section Strings

variable {s before rest : String} {separator : Char}

theorem cutFirst_append (text : s.toList = before.toList ++ separator :: rest.toList)
    (run : separator ∉ before.toList) : cutFirst separator s = some (before, rest) := by
  have others : ∀ c ∈ before.toList, (c == separator) = false := by
    intro c member
    rw [beq_eq_false_iff_ne]
    rintro rfl
    exact run member
  rw [cutFirst, text, cutWhere_append others (beq_self_eq_true separator)]
  simp

theorem cutFirst_none (absent : separator ∉ s.toList) : cutFirst separator s = none := by
  rw [cutFirst, cutWhere_run, Option.map_none]
  intro c member
  rw [beq_eq_false_iff_ne]
  rintro rfl
  exact absent member

theorem split_eq (absent : separator ∉ s.toList) : split separator s = [s] := by
  rw [split, splitWhere_run, List.map_singleton, String.ofList_toList]
  intro c member
  rw [beq_eq_false_iff_ne]
  rintro rfl
  exact absent member

theorem split_ne_nil (separator : Char) (s : String) : split separator s ≠ [] := by
  rw [split, ne_eq, List.map_eq_nil_iff]
  exact splitWhere_ne_nil _ _

theorem Solid.trim_eq (solid : Solid s) : trim s = s := by
  rw [trim, solid.unpadded.trimList_eq, String.ofList_toList]

/-- Where no piece has blanks, the pieces are the values. -/
theorem values_eq_split (solid : ∀ piece ∈ split ',' s, Solid piece) : values s = split ',' s := by
  have trimmed : (split ',' s).map trim = split ',' s := by
    rw [List.map_congr_left fun piece member => (solid piece member).trim_eq, List.map_id']
  rw [values, trimmed, List.filter_eq_self]
  intro piece member
  rw [Bool.not_eq_true', ← Bool.not_eq_true, String.isEmpty_iff]
  rintro rfl
  exact (solid _ member).present rfl

namespace Solid

theorem values_eq (solid : Solid s) (absent : ',' ∉ s.toList) : values s = [s] := by
  have uncut : split ',' s = [s] := split_eq absent
  rw [values_eq_split, uncut]
  rw [uncut]
  exact List.forall_mem_singleton.mpr solid

theorem words_eq (solid : Solid s) : words s = [s] := by
  have kept : s.toList.isEmpty = false := List.isEmpty_eq_false_iff.mpr solid.present
  rw [words, splitWhere_run solid.unblank]
  simp [kept]

theorem words_append (solid : Solid before)
    (text : s.toList = before.toList ++ ' ' :: rest.toList) :
    words s = before :: words rest := by
  have kept : before.toList.isEmpty = false := List.isEmpty_eq_false_iff.mpr solid.present
  rw [words, text, splitWhere_append solid.unblank (by decide)]
  simp [kept, words]

end Solid
end Strings
end Text

namespace Search.Word

variable {word label value : String}

theorem parse?_eq (solid : Text.Solid word) (mark : word.toList.head? ≠ some '-') :
    parse? word = some (parameterOf word) := by
  rw [parse?, solid.trim_eq]
  split
  next empty => exact absurd empty solid.present
  next rest minus =>
    rw [minus] at mark
    exact absurd rfl mark
  next => rw [String.ofList_toList]

theorem parse?_parameter (solid : Text.Solid word)
    (text : word.toList = label.toList ++ ':' :: value.toList) (labelled : label ≠ "")
    (run : ':' ∉ label.toList) (mark : label.toList.head? ≠ some '-') (valued : value ≠ "") :
    parse? word = some (.parameter ⟨label, value⟩) := by
  have front : word.toList.head? ≠ some '-' := by
    rw [text]
    cases letters : label.toList with
    | nil => exact absurd (String.toList_eq_nil_iff.mp letters) labelled
    | cons first rest =>
      rw [letters] at mark
      exact mark
  rw [parse?_eq solid front, parameterOf, Text.cutFirst_append text run]
  simp [labelled, valued]

theorem parse?_bare (solid : Text.Solid word) (run : ':' ∉ word.toList)
    (mark : word.toList.head? ≠ some '-') :
    parse? word = some (.parameter ⟨standardAlias, word⟩) := by
  rw [parse?_eq solid mark, parameterOf, Text.cutFirst_none run]

end Search.Word
end AuditLog
