import AuditLog.Proofs.TakenWords

/-! Which parameters stand in for themselves: those that no word addresses and the session does not
ignore, each once, in the order of registration, and all after the last word. -/
namespace AuditLog.Search

namespace Compiler

/-- The parameters that no word addresses and that the session does not ignore. -/
def unaddressed (registry : Registry) (words : List String) (session : Session) :
    List ParameterHandler :=
  registry.parameters.filter fun h =>
    !words.any (asks h.aliases) && !(h.name :: h.aliases).any session.ignores

theorem any_asks (aliases : List String) (words : List String) :
    (arguments words).any (answersTo aliases ·.label) = words.any (asks aliases) := by
  rw [Bool.eq_iff_iff, List.any_eq_true, List.any_eq_true]
  constructor
  · rintro ⟨argument, member, answers⟩
    obtain ⟨word, within, parsed⟩ := mem_arguments.mp member
    exact ⟨word, within, asks_iff.mpr ⟨argument, argument?_eq_some.mp parsed, answers⟩⟩
  · rintro ⟨word, within, asked⟩
    obtain ⟨argument, parsed, answers⟩ := asks_iff.mp asked
    exact ⟨argument, mem_arguments.mpr ⟨word, within, argument?_eq_some.mpr parsed⟩, answers⟩

/-- Whether a parameter is settled is seen from the words and the session after them. -/
theorem isSettled_gather (session : Session) (words : List String) (h : ParameterHandler) :
    isSettled session (Progress.gather [] (arguments words)) h =
      (words.any (asks h.aliases) || (h.name :: h.aliases).any session.ignores) := by
  have handled := Progress.any_gather h.aliases (arguments words)
  rw [any_asks] at handled
  have handled : (Progress.gather [] (arguments words)).any (h.handles ·.label) =
      words.any (asks h.aliases) := handled
  rw [isSettled, handled, List.any_cons, Bool.or_comm]

/-- Defaults are injected exactly. When a search is accepted, each parameter that no word addresses
and that the session after all words ignores neither by name nor by alias is asked to stand in,
once, in the order of registration, and no other is; where there are no defaults none is. Each call
sees the conditions that the words added, in their order, followed by those of the calls before it.
The calls that gave something are announced, and theirs are the last conditions of the query. -/
theorem defaults_exact (compiler : Compiler) (now : Instant) (first session : Session)
    (words : List String) (compiled : Compiled)
    (prepared : compiler.prepare now first words = (session, .ok compiled)) :
    ∃ p cs made, (compiler.start first).run now compiler.registry words = (p, none) ∧
      compiler.callsAfter now p = .ok made ∧
      AddEach now compiler.registry first words session cs ∧
      made.map Call.handler = (if compiler.settings.defaultsEnabled then
        unaddressed compiler.registry words session else []) ∧
      (∀ before call after, made = before ++ call :: after →
        call.shown.conditions =
          cs.flatMap Contribution.conditions ++ before.flatMap Call.conditions ∧
        call.handler.standIn now session call.shown = .ok call.answer) ∧
      compiled.defaults = made.filterMap Call.used? ∧
      compiled.query.conditions =
        cs.flatMap Contribution.conditions ++ made.flatMap Call.conditions ∧
      compiled.query.limit = compiler.settings.limit ∧
      compiled.pending = cs.filterMap Contribution.lookup := by
  obtain ⟨p, made, taken, rfl, asked, rfl⟩ := prepare_accepted prepared
  obtain ⟨cs, each, query, pending⟩ := Progress.addEach_of_run taken
  have given : p.given = Progress.gather [] (arguments words) := Progress.given_run taken
  have started : p.query = ⟨cs.flatMap Contribution.conditions, compiler.settings.limit⟩ := query
  obtain ⟨order, shown⟩ := callsAfter_spec asked
  refine ⟨p, cs, made, taken, asked, each, ?_, ?_, rfl, ?_, ?_, pending⟩
  · simp only [order, given, isSettled_gather, unaddressed, Bool.not_or]
  · intro before call after parts
    obtain ⟨same, answered⟩ := shown before call after parts
    refine ⟨?_, answered⟩
    rw [same, started]
    rfl
  · rw [started]
    rfl
  · rw [started]
    rfl

/-- A flag withdraws the default radius after an argument; of the parameters asked, the time alone
stands in. -/
theorem digger_defaults : ∃ (session : Session) (compiled : Compiled) (made : List Call),
    (builtin .standard default).prepare clock (.start digger .utc) ["A:break", "-id=RADIUS"] =
      (session, .ok compiled) ∧
    made.map (·.handler.name) = ["player", "recipient", "time", "world", "cause", "block", "item",
      "entity", "target", "message", "item-name", "item-desc", "ip", "custom"] ∧
    compiled.defaults = made.filterMap Call.used? ∧ compiled.defaults = [⟨"t", "3d"⟩] := by
  have accepted : ((builtin .standard default).prepare clock (.start digger .utc)
      ["A:break", "-id=RADIUS"]).2.isOk = true := by decide +kernel
  obtain ⟨compiled, prepared⟩ := prepare_isOk accepted
  obtain ⟨p, cs, made, -, -, -, order, -, announced, -⟩ := defaults_exact
    (builtin .standard default) clock (.start digger .utc) _ ["A:break", "-id=RADIUS"] compiled
    prepared
  have announces : ((builtin .standard default).prepare clock (.start digger .utc)
      ["A:break", "-id=RADIUS"]).2.toOption.map Compiled.defaults = some [⟨"t", "3d"⟩] := by
    decide +kernel
  rw [prepared] at announces
  refine ⟨_, compiled, made, prepared, ?_, announced, Option.some_inj.mp announces⟩
  have names := congrArg (List.map ParameterHandler.name) order
  rw [List.map_map] at names
  exact names.trans (by decide +kernel)

end Compiler
end AuditLog.Search
