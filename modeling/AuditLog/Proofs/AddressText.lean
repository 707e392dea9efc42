import AuditLog.IpAddress
import AuditLog.Proofs.TextPieces

/-! An address that can be read has no blanks. Each part of the reading takes characters from the
front of the text, and all that are taken are digits, dots and colons. -/
namespace AuditLog.IpAddress

/-- What was taken from the front of the text has no blanks. -/
def Consumes (cs rest : List Char) : Prop :=
  ∃ run, cs = run ++ rest ∧ ∀ c ∈ run, Text.isBlank c = false

namespace Consumes

variable {cs next rest : List Char}

theorem refl (cs : List Char) : Consumes cs cs := ⟨[], rfl, by simp⟩

theorem trans (first : Consumes cs next) (second : Consumes next rest) : Consumes cs rest := by
  obtain ⟨run, rfl, dark⟩ := first
  obtain ⟨more, rfl, dark'⟩ := second
  exact ⟨run ++ more, (List.append_assoc _ _ _).symm, List.forall_mem_append.mpr ⟨dark, dark'⟩⟩

theorem cons {c : Char} (dark : Text.isBlank c = false) : Consumes (c :: cs) cs :=
  ⟨[c], rfl, by simpa using dark⟩

theorem drop_takeWhile {p : Char → Bool} (dark : ∀ c, p c = true → Text.isBlank c = false) :
    Consumes cs (cs.drop (cs.takeWhile p).length) := by
  refine ⟨cs.takeWhile p, ?_, fun c member => dark c (List.mem_takeWhile_imp member)⟩
  have front := List.prefix_iff_eq_append.mp (List.takeWhile_prefix p (l := cs))
  exact front.symm

end Consumes

theorem isBlank_digit {c : Char} (digit : Text.isDigit c = true) : Text.isBlank c = false := by
  rw [Text.isDigit, Bool.and_eq_true, decide_eq_true_eq, decide_eq_true_eq] at digit
  have low : 48 ≤ c.toNat := digit.1
  have high : c.toNat ≤ 57 := digit.2
  exact Text.isBlank_printable (by omega) (by omega)

theorem isBlank_hex {c : Char} (digit : (Text.hexValue? c).isSome = true) :
    Text.isBlank c = false := by
  have between {a b : Char} (low : 33 ≤ a.toNat) (high : b.toNat ≤ 126)
      (within : (decide (a ≤ c) && decide (c ≤ b)) = true) : Text.isBlank c = false := by
    rw [Bool.and_eq_true, decide_eq_true_eq, decide_eq_true_eq] at within
    have above : a.toNat ≤ c.toNat := within.1
    have below : c.toNat ≤ b.toNat := within.2
    exact Text.isBlank_printable (by omega) (by omega)
  unfold Text.hexValue? at digit
  split at digit
  next decimal => exact between (by decide) (by decide) decimal
  next =>
    split at digit
    next small => exact between (by decide) (by decide) small
    next =>
      split at digit
      next capital => exact between (by decide) (by decide) capital
      next => cases digit

section Parts

variable {cs rest : List Char}

theorem consumes_octet {n : Nat} (read : octet? cs = some (n, rest)) : Consumes cs rest := by
  unfold octet? at read
  simp only at read
  split at read
  · cases read
  · split at read
    · cases read
    · split at read
      · cases read
      · cases read
        exact .drop_takeWhile fun c => isBlank_digit

theorem consumes_dot (read : dot? cs = some rest) : Consumes cs rest := by
  unfold dot? at read
  split at read
  · cases read
    exact .cons (by decide)
  · cases read

theorem consumes_colon (read : colon? cs = some rest) : Consumes cs rest := by
  unfold colon? at read
  split at read
  · cases read
    exact .cons (by decide)
  · cases read

theorem consumes_group {n : Nat} (read : group? cs = some (n, rest)) : Consumes cs rest := by
  unfold group? at read
  simp only at read
  split at read
  · cases read
  · obtain ⟨_, -, made⟩ := Option.bind_eq_some_iff.mp read
    cases made
    exact .drop_takeWhile fun c => isBlank_hex

theorem consumes_quad {octets : List Nat} (read : quad? cs = some (octets, rest)) :
    Consumes cs rest := by
  simp only [quad?, Option.bind_eq_bind, Option.bind_eq_some_iff, Prod.exists] at read
  obtain ⟨_, _, first, _, dot, _, _, second, _, dot', _, _, third, _, dot'', _, _, fourth, made⟩ :=
    read
  cases made
  have half := ((consumes_octet first).trans (consumes_dot dot)).trans (consumes_octet second)
  have most := (half.trans (consumes_dot dot')).trans (consumes_octet third)
  exact (most.trans (consumes_dot dot'')).trans (consumes_octet fourth)

/-- By induction on the room for groups; where a run ends, nothing of what follows is taken. -/
theorem consumes_groups (first : Bool) (room : Nat) (cs : List Char) :
    Consumes cs (groups first room cs).2.2 := by
  induction room generalizing first cs with
  | zero => exact .refl cs
  | succ room ih =>
    rw [groups]
    split
    next => exact .refl cs
    next start begun =>
      have here : Consumes cs start := by
        split at begun
        · cases begun
          exact .refl cs
        · exact consumes_colon begun
      split
      next rest quad =>
        split at quad
        · exact here.trans (consumes_quad quad)
        · cases quad
      next =>
        split
        next => exact .refl cs
        next g rest group => exact (here.trans (consumes_group group)).trans (ih false rest)

theorem consumes_v6 {found : List Nat} (read : v6? cs = some (found, rest)) :
    Consumes cs rest := by
  have taken := consumes_groups true 8 cs
  unfold v6? at read
  generalize groups true 8 cs = parts at read taken
  obtain ⟨front, quad, after⟩ := parts
  simp only at read taken
  split at read
  · cases read
    exact taken
  · split at read
    · cases read
    · split at read
      next tail =>
        cases read
        have colons : Consumes (':' :: ':' :: tail) tail :=
          (Consumes.cons (by decide)).trans (.cons (by decide))
        exact (taken.trans colons).trans (consumes_groups true _ tail)
      next => cases read

end Parts

/-- An address that can be read has no blanks and is not empty. -/
theorem solid_of_parse {s : String} (read : (parse? s).isSome = true) : Text.Solid s := by
  have present : s.toList ≠ [] := by
    intro empty
    rw [parse?, empty] at read
    revert read
    decide
  have whole : Consumes s.toList [] := by
    unfold parse? at read
    split at read
    next octets quad => exact consumes_quad quad
    next =>
      split at read
      next groups v6 => exact consumes_v6 v6
      next => cases read
  obtain ⟨run, text, dark⟩ := whole
  rw [List.append_nil] at text
  exact ⟨text ▸ dark, present⟩

end AuditLog.IpAddress
