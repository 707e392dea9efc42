import AuditLog.Proofs.QuotedText

/-! Displayed values are cut off by what closes them, and those without doubles are read in one
way only: their texts are equal only if they are, but for leap seconds that do not end their minute,
and none is continued by what could follow it inside another. The first character shows of which
kind a value is; words and numbers are the runs that they are, and arrays and documents follow by
induction. -/
namespace AuditLog

namespace Value

mutual
/-- No double at any depth. -/
def DoubleFree : Value → Prop
  | .double _ => False
  | .array items => DoubleFreeItems items
  | .document fields => DoubleFreeFields fields
  | _ => True
def DoubleFreeItems : List Value → Prop
  | [] => True
  | v :: rest => v.DoubleFree ∧ DoubleFreeItems rest
def DoubleFreeFields : List (String × Value) → Prop
  | [] => True
  | (_, v) :: rest => v.DoubleFree ∧ DoubleFreeFields rest
end

theorem doubleFreeFields_iff {fields : List (String × Value)} :
    DoubleFreeFields fields ↔ ∀ field ∈ fields, field.2.DoubleFree := by
  induction fields with
  | nil => simp [DoubleFreeFields]
  | cons field rest ih => simp [DoubleFreeFields, ih]

mutual
theorem doubles_eq_nil : ∀ v : Value, v.DoubleFree → v.doubles = []
  | .double _, free => by cases free
  | .array items, free => itemDoubles_eq_nil items free
  | .document fields, free => fieldDoubles_eq_nil fields free
  | .null, _ | .bool _, _ | .int _, _ | .text _, _ | .instant _, _ => rfl
theorem itemDoubles_eq_nil : ∀ items : List Value, DoubleFreeItems items → itemDoubles items = []
  | [], _ => rfl
  | v :: rest, free => by
    rw [itemDoubles, doubles_eq_nil v free.1, itemDoubles_eq_nil rest free.2, List.append_nil]
theorem fieldDoubles_eq_nil : ∀ fields : List (String × Value),
    DoubleFreeFields fields → fieldDoubles fields = []
  | [], _ => rfl
  | (_, v) :: rest, free => by
    rw [fieldDoubles, doubles_eq_nil v free.1, fieldDoubles_eq_nil rest free.2, List.append_nil]
end

theorem reread_of_regular {v : Value} (free : v.DoubleFree) (regular : v.Regular) :
    v.reread = v := by
  apply v.reread_eq_iff.mpr
  rw [doubles_eq_nil v free]
  exact ⟨fun _ member => (by cases member), regular⟩

/-- Read back as equal, unless there are doubles in them. -/
def Agrees (v w : Value) : Prop := v.DoubleFree → w.DoubleFree → v.reread = w.reread

def FieldsAgree (a b : String × Value) : Prop := a.1 = b.1 ∧ a.2.Agrees b.2

theorem reread_eq_of_agrees {items others : List Value} (agree : List.Forall₂ Agrees items others)
    (free : DoubleFreeItems items) (free' : DoubleFreeItems others) :
    rereadItems items = rereadItems others := by
  induction agree with
  | nil => rfl
  | cons head _ ih => rw [rereadItems, rereadItems, head free.1 free'.1, ih free.2 free'.2]

theorem reread_eq_of_fieldsAgree {fields others : List (String × Value)}
    (agree : List.Forall₂ FieldsAgree fields others) (free : DoubleFreeFields fields)
    (free' : DoubleFreeFields others) : rereadFields fields = rereadFields others := by
  induction agree with
  | nil => rfl
  | cons head _ ih =>
    rw [rereadFields, rereadFields, head.1, head.2 free.1 free'.1, ih free.2 free'.2]

theorem find?_agrees {fields others : Document} (agree : List.Forall₂ FieldsAgree fields others)
    {name : String} {v w : Value} (found : Table.find? name fields = some v)
    (found' : Table.find? name others = some w) : v.Agrees w := by
  induction agree with
  | nil => cases found
  | cons head _ ih =>
    simp only [Table.find?, ← head.1] at found found'
    split at found
    next same =>
      rw [if_pos same] at found'
      cases found
      cases found'
      exact head.2
    next other =>
      rw [if_neg other] at found'
      exact ih found found'

theorem display_instant (t : Instant) :
    display (.instant t) = "ISODate(\"".toList ++ Timestamp.display t ++ "\")".toList := rfl

theorem display_array (items : List Value) :
    display (.array items) = '[' :: displayItems items ++ [']'] := rfl

theorem display_document (fields : List (String × Value)) :
    display (.document fields) = '\x7b' :: displayFields fields ++ ['\x7d'] := rfl

/-- What the first character of a displayed value shows. -/
inductive Kind where
  | word
  | text
  | instant
  | array
  | document
  | close

def kind : Value → Kind
  | .text _ => .text
  | .instant _ => .instant
  | .array _ => .array
  | .document _ => .document
  | _ => .word

def Kind.ofChar (c : Char) : Kind :=
  if c = '"' then .text
  else if c = 'I' then .instant
  else if c = '[' then .array
  else if c = '\x7b' then .document
  else if Text.isMark c then .close
  else .word

theorem Kind.ofChar_word {c : Char} (unmarked : Text.isMark c = false) : Kind.ofChar c = .word := by
  have other (d : Char) (mark : Text.isMark d = true) : c ≠ d := by
    rintro rfl
    rw [unmarked] at mark
    cases mark
  simp [ofChar, unmarked, other '"' rfl, other 'I' rfl, other '[' rfl, other '\x7b' rfl]

theorem display_word {v : Value} (word : v.kind = .word) :
    Text.Unmarked v.display ∧ v.display ≠ [] := by
  cases v with
  | null => exact ⟨by decide, by decide⟩
  | bool b => cases b <;> exact ⟨by decide, by decide⟩
  | int i => exact ⟨Text.unmarked_signed _, Text.signed_ne_nil _⟩
  | double x => exact x.unmarked_display
  | _ => cases word

theorem display_head (v : Value) :
    ∃ c tail, v.display = c :: tail ∧ Kind.ofChar c = v.kind := by
  cases word : v.kind with
  | word =>
    obtain ⟨unmarked, present⟩ := display_word word
    obtain ⟨c, tail, written⟩ := List.exists_cons_of_ne_nil present
    exact ⟨c, tail, written, Kind.ofChar_word (unmarked c (by simp [written]))⟩
  | _ => cases v <;> cases word <;> exact ⟨_, _, rfl, rfl⟩

theorem kind_eq_of_display {v w : Value} {r s : List Char}
    (same : v.display ++ r = w.display ++ s) : v.kind = w.kind := by
  obtain ⟨c, tail, written, kind⟩ := v.display_head
  obtain ⟨d, tail', written', kind'⟩ := w.display_head
  rw [written, written'] at same
  rw [← kind, ← kind', (List.cons.inj same).1]

theorem display_ne_close {c : Char} (close : Kind.ofChar c = .close) (v : Value)
    (r tail : List Char) : v.display ++ r ≠ c :: tail := by
  intro same
  obtain ⟨d, rest, written, kind⟩ := v.display_head
  rw [written] at same
  rw [(List.cons.inj same).1, close] at kind
  cases v <;> cases kind

theorem word_injective {v w : Value} (left : v.kind = .word) (right : w.kind = .word)
    (free : v.DoubleFree) (free' : w.DoubleFree) (same : v.display = w.display) : v = w := by
  have letter (i : Int64) {c : Char} {tail : List Char} (written : Text.signed i.toInt = c :: tail) :
      c = '-' ∨ Text.isDigit c = true := Text.signed_head written
  cases v with
  | null =>
    cases w with
    | null => rfl
    | bool b => cases b <;> cases same
    | int i => rcases letter i same.symm with equal | equal <;> cases equal
    | double x => cases free'
    | _ => cases right
  | bool b =>
    cases w with
    | null => cases b <;> cases same
    | bool c => cases b <;> cases c <;> first | rfl | cases same
    | int i => cases b <;> rcases letter i same.symm with equal | equal <;> cases equal
    | double x => cases free'
    | _ => cases right
  | int i =>
    cases w with
    | null => rcases letter i same with equal | equal <;> cases equal
    | bool b => cases b <;> rcases letter i same with equal | equal <;> cases equal
    | int j => exact congrArg Value.int (Int64.toInt_inj.mp (Text.signed_injective same))
    | double x => cases free'
    | _ => cases right
  | double x => cases free
  | _ => cases left

section Readability

open Json (Closes closes_cons closes_nil)

variable {α : Type}

/-- What follows an item: the closing bracket, or a comma and the items that remain. -/
def next (written : List α → List Char) (close : Char) (r : List Char) : List α → List Char
  | [] => close :: r
  | x :: rest => ',' :: ' ' :: (written (x :: rest) ++ close :: r)

theorem closes_next (written : List α → List Char) {close : Char}
    (bracket : close = ']' ∨ close = '\x7d') (r : List Char) (rest : List α) :
    Closes (next written close r rest) := by
  cases rest with
  | nil => exact closes_cons (.inr bracket) _
  | cons x rest => exact closes_cons (.inl rfl) _

theorem next_inj {written : List α → List Char} {close : Char} (bracket : close ≠ ',')
    {alike : List α → List α → Prop} (none : alike [] []) {xs ys : List α} {r s : List Char}
    (later : written xs ++ close :: r = written ys ++ close :: s → r = s ∧ alike xs ys)
    (same : next written close r xs = next written close s ys) : r = s ∧ alike xs ys := by
  cases xs with
  | nil =>
    cases ys with
    | nil => exact ⟨(List.cons.inj same).2, none⟩
    | cons y ys => exact absurd (List.cons.inj same).1 bracket
  | cons x xs =>
    cases ys with
    | nil => exact absurd (List.cons.inj same).1.symm bracket
    | cons y ys => exact later (List.cons.inj (List.cons.inj same).2).2

theorem displayItems_cons (v : Value) (rest : List Value) (r : List Char) :
    displayItems (v :: rest) ++ ']' :: r = display v ++ next displayItems ']' r rest := by
  cases rest with
  | nil => rfl
  | cons w rest =>
    change (display v ++ ',' :: ' ' :: displayItems (w :: rest)) ++ ']' :: r = _
    rw [List.append_assoc]
    rfl

theorem displayFields_cons (name : String) (v : Value) (rest : List (String × Value))
    (r : List Char) : displayFields ((name, v) :: rest) ++ '\x7d' :: r =
      Text.quoted name ++ ':' :: ' ' :: (display v ++ next displayFields '\x7d' r rest) := by
  cases rest with
  | nil =>
    change (Text.quoted name ++ ':' :: ' ' :: display v) ++ '\x7d' :: r = _
    rw [List.append_assoc]
    rfl
  | cons w rest =>
    change (Text.quoted name ++ ':' :: ' ' :: display v ++
      ',' :: ' ' :: displayFields (w :: rest)) ++ '\x7d' :: r = _
    rw [List.append_assoc, List.append_assoc]
    rfl

mutual
/-- What follows a displayed value is determined by the whole, and so is a value without doubles. -/
theorem display_append_inj : ∀ (v w : Value) (r s : List Char), Closes r → Closes s →
    v.display ++ r = w.display ++ s → r = s ∧ v.Agrees w
  | v, w, r, s, closes, closes', same => by
    have kinds := kind_eq_of_display same
    by_cases word : v.kind = .word
    · obtain ⟨written, rest⟩ := Text.unmarked_append_inj (display_word word).1
        (display_word (kinds.symm.trans word)).1 closes closes' same
      refine ⟨rest, ?_⟩
      intro free free'
      exact congrArg reread (word_injective word (kinds.symm.trans word) free free' written)
    cases v with
    | text a =>
      cases w with
      | text b =>
        obtain ⟨value, rest⟩ := Text.quoted_append_inj same
        exact ⟨rest, fun _ _ => congrArg (reread ∘ Value.text) value⟩
      | _ => cases kinds
    | instant t =>
      cases w with
      | instant u =>
        rw [display_instant, display_instant, List.append_assoc, List.append_assoc,
          List.append_assoc, List.append_assoc] at same
        obtain ⟨written, rest⟩ := Text.append_stop_inj (Timestamp.quote_notMem_display t)
          (Timestamp.quote_notMem_display u) (List.append_cancel_left same)
        refine ⟨(List.cons.inj rest).2, ?_⟩
        intro _ _
        exact congrArg Value.instant (Timestamp.display_eq_iff.mp written)
      | _ => cases kinds
    | array items =>
      cases w with
      | array others =>
        simp only [display_array, List.cons_append, List.append_assoc, List.nil_append] at same
        obtain ⟨rest, agree⟩ := displayItems_append_inj items others r s (List.cons.inj same).2
        refine ⟨rest, ?_⟩
        intro free free'
        exact congrArg Value.array (reread_eq_of_agrees agree free free')
      | _ => cases kinds
    | document fields =>
      cases w with
      | document others =>
        simp only [display_document, List.cons_append, List.append_assoc, List.nil_append] at same
        obtain ⟨rest, agree⟩ := displayFields_append_inj fields others r s (List.cons.inj same).2
        refine ⟨rest, ?_⟩
        intro free free'
        exact congrArg Value.document (reread_eq_of_fieldsAgree agree free free')
      | _ => cases kinds
    | _ => exact absurd rfl word
theorem displayItems_append_inj : ∀ (items others : List Value) (r s : List Char),
    displayItems items ++ ']' :: r = displayItems others ++ ']' :: s →
      r = s ∧ List.Forall₂ Agrees items others
  | [], others, r, s, same => by
    cases others with
    | nil => exact ⟨(List.cons.inj same).2, .nil⟩
    | cons w others =>
      rw [displayItems_cons] at same
      exact absurd same.symm (display_ne_close rfl w _ _)
  | v :: items, others, r, s, same => by
    rw [displayItems_cons] at same
    cases others with
    | nil => exact absurd same (display_ne_close rfl v _ _)
    | cons w others =>
      rw [displayItems_cons] at same
      obtain ⟨rest, head⟩ := display_append_inj v w _ _ (closes_next _ (.inl rfl) _ _)
        (closes_next _ (.inl rfl) _ _) same
      obtain ⟨after, tail⟩ := next_inj (by decide) .nil
        (displayItems_append_inj items others r s) rest
      exact ⟨after, .cons head tail⟩
theorem displayFields_append_inj : ∀ (fields others : List (String × Value)) (r s : List Char),
    displayFields fields ++ '\x7d' :: r = displayFields others ++ '\x7d' :: s →
      r = s ∧ List.Forall₂ FieldsAgree fields others
  | [], others, r, s, same => by
    cases others with
    | nil => exact ⟨(List.cons.inj same).2, .nil⟩
    | cons field others =>
      rw [displayFields_cons] at same
      cases same
  | (name, v) :: fields, others, r, s, same => by
    rw [displayFields_cons] at same
    cases others with
    | nil => cases same
    | cons field others =>
      obtain ⟨name', w⟩ := field
      rw [displayFields_cons] at same
      obtain ⟨names, values⟩ := Text.quoted_append_inj same
      obtain ⟨rest, head⟩ := display_append_inj v w _ _ (closes_next _ (.inr rfl) _ _)
        (closes_next _ (.inr rfl) _ _) (List.cons.inj (List.cons.inj values).2).2
      obtain ⟨after, tail⟩ := next_inj (by decide) .nil
        (displayFields_append_inj fields others r s) rest
      exact ⟨after, .cons ⟨names, head⟩ tail⟩
end

theorem fieldsAgree_of_display {fields others : List (String × Value)}
    (same : display (.document fields) = display (.document others)) :
    List.Forall₂ FieldsAgree fields others := by
  apply (displayFields_append_inj fields others [] [] ?_).2
  exact (List.cons.inj same).2

mutual
/-- Without doubles, a value is read back as one of the same text. -/
theorem display_reread : ∀ v : Value, v.DoubleFree → v.reread.display = v.display
  | .double _, free => by cases free
  | .instant t, _ => by
    have same := Timestamp.display_eq_iff.mpr t.reread_reread
    rw [reread, display_instant, display_instant, same]
  | .array items, free => by
    rw [reread, display_array, display_array, displayItems_reread items free]
  | .document fields, free => display_rereadFields fields free
  | .null, _ | .bool _, _ | .int _, _ | .text _, _ => rfl
theorem displayItems_reread : ∀ items : List Value, DoubleFreeItems items →
    displayItems (rereadItems items) = displayItems items
  | [], _ => rfl
  | [v], free => display_reread v free.1
  | v :: w :: rest, free => by
    have later := displayItems_reread (w :: rest) free.2
    rw [rereadItems] at later
    rw [rereadItems, rereadItems, displayItems, displayItems, display_reread v free.1, later]
theorem display_rereadFields (fields : List (String × Value)) (free : DoubleFreeFields fields) :
    display (.document (rereadFields fields)) = display (.document fields) := by
  rw [display_document, display_document, displayFields_reread fields free]
theorem displayFields_reread : ∀ fields : List (String × Value), DoubleFreeFields fields →
    displayFields (rereadFields fields) = displayFields fields
  | [], _ => rfl
  | [(name, v)], free => by
    rw [rereadFields, rereadFields, displayFields, displayFields, display_reread v free.1]
  | (name, v) :: field :: rest, free => by
    have later := displayFields_reread (field :: rest) free.2
    rw [rereadFields] at later
    rw [rereadFields, rereadFields, displayFields, displayFields, display_reread v free.1, later]
end

end Readability

/-- A leap second after the fourth second of a minute, and the fifth second. -/
def leapAfterFour : Value := .instant ⟨1718459764, 1333333333, by decide, by decide, by decide⟩

def fifthSecond : Value := .instant ⟨1718459765, 333333333, by decide, by decide, by decide⟩

end Value
end AuditLog
