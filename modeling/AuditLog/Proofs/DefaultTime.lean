import AuditLog.Config
import AuditLog.Proofs.BatchWrites
import AuditLog.Proofs.StandIns

/-! When the default time of a search can be used. A configuration is checked for a default that reads
as a span of time; whether the span reaches back to a representable instant is seen only when the
time stands in. A search that names no time is refused exactly if it does not. -/
namespace AuditLog

namespace Instant

/-- Only the beginning of the representable years limits how far one can go back; from a leap second
one second further. -/
def ReachesBack (t : Instant) (span : Nat) : Prop :=
  -8334601228800 + span ≤ t.seconds + (if t.nanos < 1000000000 then 0 else 1)

instance (t : Instant) (span : Nat) : Decidable (t.ReachesBack span) :=
  inferInstanceAs (Decidable (_ ≤ _))

theorem shift?_back_isSome (t : Instant) {span : Nat} (moved : 0 < span) :
    (t.shift? (-span)).isSome ↔ t.ReachesBack span := by
  have last := t.last
  have nanos := t.nanos_lt
  have back : -(span : Int) ≠ 0 := by omega
  rw [shift?, if_neg back, ReachesBack]
  split
  next plain =>
    rw [of?_isSome _ _ (.inl plain)]
    omega
  next leap =>
    rw [of?_isSome _ _ (.inl (by omega))]
    omega

end Instant

theorem Span.parse?_pos {s : String} {span : Nat} (read : parse? s = some span) : 0 < span := by
  obtain ⟨-, bounds⟩ := Option.filter_eq_some_iff.mp read
  simp only [Bool.and_eq_true, decide_eq_true_eq] at bounds
  exact bounds.1

namespace Config

/-- A valid configuration has a default time that can be read. -/
theorem defaultTime_of_validate {now : Instant} {config : Config}
    (valid : config.validate now = .ok ()) :
    ∃ span, Span.parse? config.search.defaultTime = some span := by
  unfold validate at valid
  split at valid
  next => cases valid
  next =>
    split at valid
    next => cases valid
    next readable =>
      rw [Bool.not_eq_true, Option.isNone_eq_false_iff] at readable
      exact Option.isSome_iff_exists.mp readable

end Config

namespace Search

open Parameters

namespace Compiler

variable {settings : Settings} {players : Players} {now : Instant}

/-- The time is not called upon, or its default reaches back to some instant. -/
def Usable (settings : Settings) (now : Instant) (p : Progress) : Prop :=
  settings.defaultsEnabled = true →
    isSettled p.session p.given (time settings.defaultTime) = false →
    (cutoff? now settings.defaultTime).isSome

/-- With the built-in parameters, defaults fail only through the time, and then with its error. -/
theorem callsAfter_builtin (players : Players) (p : Progress) :
    Usable settings now p ∧ (∃ made, (builtin settings players).callsAfter now p = .ok made) ∨
      ¬ Usable settings now p ∧ (builtin settings players).callsAfter now p =
        .error (.invalidValue "t" settings.defaultTime) := by
  cases asked : (builtin settings players).callsAfter now p with
  | ok made =>
    refine .inl ⟨?_, made, rfl⟩
    intro enabled unsettled
    obtain ⟨order, each⟩ := callsAfter_spec asked
    -- the time is among those asked, and its call was answered
    have among : time settings.defaultTime ∈ made.map Call.handler := by
      have member : time settings.defaultTime ∈ (builtin settings players).registry.parameters :=
        Registry.time_mem settings players
      have configured : (builtin settings players).settings.defaultsEnabled = true := enabled
      rw [order, if_pos configured, List.mem_filter, unsettled]
      exact ⟨member, rfl⟩
    obtain ⟨call, within, same⟩ := List.mem_map.mp among
    obtain ⟨before, after, parts⟩ := List.append_of_mem within
    obtain ⟨-, answered⟩ := each before call after parts
    rw [same] at answered
    cases cutoff : cutoff? now settings.defaultTime with
    | some t => rfl
    | none => simp [time, sinceCutoff, cutoff, Except.map] at answered
  | error e =>
    obtain ⟨enabled, h, member, unsettled, shown, refused⟩ := callsAfter_error asked
    obtain ⟨rfl, none, rfl⟩ := Registry.standIn_error member refused
    refine .inr ⟨?_, rfl⟩
    intro usable
    have some := usable enabled unsettled
    rw [none] at some
    cases some

/-- When all words have been taken, nothing but the default time can refuse the search. -/
theorem prepare_builtin {first : Session} {words : List String} {p : Progress}
    (taken : ((builtin settings players).start first).run now (.builtin settings players) words =
      (p, none)) :
    Usable settings now p ∧ (∃ compiled, (builtin settings players).prepare now first words =
        (p.session, .ok compiled)) ∨
      ¬ Usable settings now p ∧ (builtin settings players).prepare now first words =
        (p.session, .error (.invalidValue "t" settings.defaultTime)) := by
  have prepared : (builtin settings players).prepare now first words =
      (p.session, (builtin settings players).finish now p) := by
    have registry : (builtin settings players).registry = .builtin settings players := rfl
    rw [prepare, registry, taken]
  rw [prepared, finish_eq]
  rcases callsAfter_builtin players p with ⟨usable, made, asked⟩ | ⟨unusable, asked⟩
  · rw [asked]
    exact .inl ⟨usable, _, rfl⟩
  · rw [asked]
    exact .inr ⟨unusable, rfl⟩

/-- Words that are blank leave a search as it was. -/
theorem run_blank {registry : Registry} {p : Progress} {words : List String}
    (blank : ∀ word ∈ words, Word.parse? word = none) : p.run now registry words = (p, none) := by
  induction words with
  | nil => rfl
  | cons word rest ih =>
    have step : p.step now registry word = .ok p := by
      simp only [Progress.step, blank word List.mem_cons_self]
    simp only [Progress.run, step]
    exact ih fun other member => blank other (List.mem_cons_of_mem _ member)

end Compiler

/-- A search without parameters and flags, under a valid configuration. Its default time can be read;
the search is accepted if defaults are off, or if the instant that lies the span before the present
is representable, and otherwise refused for a value that nobody typed. -/
theorem bare_search_iff (config : Config) (now : Instant) (requester : Requester) (zone : Zone)
    (words : List String) (valid : config.validate now = .ok ())
    (blank : ∀ word ∈ words, Word.parse? word = none) :
    ∃ span, Span.parse? config.search.defaultTime = some span ∧
      ((∃ compiled, (Compiler.builtin config.search (.ofList config.players)).prepare now
          (.start requester zone) words = (.start requester zone, .ok compiled)) ↔
        config.search.defaultsEnabled = false ∨ now.ReachesBack span) ∧
      (config.search.defaultsEnabled = true → ¬ now.ReachesBack span →
        (Compiler.builtin config.search (.ofList config.players)).prepare now
          (.start requester zone) words =
            (.start requester zone, .error (.invalidValue "t" config.search.defaultTime))) := by
  obtain ⟨span, read⟩ := Config.defaultTime_of_validate valid
  have reach : (cutoff? now config.search.defaultTime).isSome ↔ now.ReachesBack span := by
    rw [cutoff?, read]
    exact now.shift?_back_isSome (Span.parse?_pos read)
  let p := (Compiler.builtin config.search (.ofList config.players)).start (.start requester zone)
  have unsettled : Compiler.isSettled p.session p.given (time config.search.defaultTime) = false :=
    rfl
  have usable : Compiler.Usable config.search now p ↔
      config.search.defaultsEnabled = false ∨ now.ReachesBack span := by
    rw [Compiler.Usable, unsettled, reach]
    cases config.search.defaultsEnabled <;> simp
  refine ⟨span, read, ?_⟩
  rw [← usable]
  rcases Compiler.prepare_builtin (Compiler.run_blank blank) with
    ⟨holds, compiled, accepted⟩ | ⟨fails, refused⟩
  · refine ⟨⟨fun _ => holds, fun _ => ⟨compiled, accepted⟩⟩, ?_⟩
    intro enabled short
    rcases usable.mp holds with disabled | reaches
    · rw [enabled] at disabled
      cases disabled
    · exact absurd reaches short
  · refine ⟨⟨?_, fun holds => absurd holds fails⟩, fun _ _ => refused⟩
    rintro ⟨compiled, accepted⟩
    cases refused.symm.trans accepted

section Sample

/-- The default time is the longest span that can be read. -/
def endless : Config :=
  { Config.standard with search := { Settings.standard with defaultTime := "9223372036854775s" } }

/-- The configuration is valid, and no search without a time is accepted. -/
theorem endless_refused : endless.validate clock = .ok () ∧
    (Compiler.builtin endless.search (.ofList endless.players)).prepare clock
      (.start .console .utc) [] =
        (.start .console .utc, .error (.invalidValue "t" "9223372036854775s")) := by
  refine ⟨by decide +kernel, ?_⟩
  exact Compiler.prepare_error (by decide +kernel)

/-- The standard configuration searches the last three days for a digger who names nothing. -/
theorem three_days_accepted : Config.standard.validate clock = .ok () ∧
    (∀ word ∈ [" "], Word.parse? word = none) ∧
    ∃ compiled, (Compiler.builtin Config.standard.search (.ofList Config.standard.players)).prepare
      clock (.start digger .utc) [" "] = (.start digger .utc, .ok compiled) := by
  have valid : Config.standard.validate clock = .ok () := by decide +kernel
  have blank : ∀ word ∈ [" "], Word.parse? word = none := by decide +kernel
  obtain ⟨span, read, accepted, -⟩ := bare_search_iff .standard clock digger .utc [" "] valid blank
  have days : Span.parse? Config.standard.search.defaultTime = some 259200 := by decide +kernel
  cases days.symm.trans read
  exact ⟨valid, blank, accepted.mpr (.inr (by decide))⟩

end Sample

end Search
end AuditLog
