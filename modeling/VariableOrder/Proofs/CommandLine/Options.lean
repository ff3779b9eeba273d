import VariableOrder.CommandLine.Run
import VariableOrder.Proofs.Outcome

/-!
# Options as they are given

Whatever the arguments are, a name from outside is a text, and a count of workers a number or
nothing, unless the divider stands in its place.
-/

set_option autoImplicit false

namespace VariableOrder.CommandLine

open Data (Value)

namespace Options

variable {o o' : Options}

/-- Whether the values of options are those that arguments can stand for. -/
structure Given (o : Options) : Prop where
  external : ∀ v ∈ o.external, v = dividerValue ∨ ∃ name, v = .text name
  workers : o.workers = dividerValue ∨ ∃ count, o.workers = Settings.workersValue count

/-- A value is the divider or a text. -/
theorem given_eq (value : String) :
    given value = dividerValue ∨ ∃ name, given value = .text name := by
  unfold given
  split
  · exact .inl rfl
  · exact .inr ⟨value, rfl⟩

/-- A count of workers is the divider, a number or nothing. -/
theorem workersOf_eq_ok {value : String} {v : Value} (h : workersOf value = .ok v) :
    v = dividerValue ∨ ∃ count, v = Settings.workersValue count := by
  unfold workersOf at h
  split at h
  · exact .inl (Except.ok.inj h).symm
  · split at h
    · rename_i n _
      exact .inr ⟨some n, (Except.ok.inj h).symm⟩
    · cases h

/-- Taking the value of an option keeps the others as they were given. -/
theorem Given.setValue (h : o.Given) {s : Switch} {value : String}
    (hset : o.setValue s value = .ok o') : o'.Given := by
  cases s with
  | external =>
    obtain rfl := Except.ok.inj hset
    refine ⟨?_, h.workers⟩
    intro v hv
    rcases List.mem_append.mp hv with hv | hv
    · exact h.external v hv
    · exact List.mem_singleton.mp hv ▸ given_eq value
  | workers =>
    cases hworkers : workersOf value with
    | error f => simp [Options.setValue, hworkers, Except.map] at hset
    | ok v =>
      simp only [Options.setValue, hworkers, Except.map, Except.ok.injEq] at hset
      subst hset
      exact ⟨h.external, workersOf_eq_ok hworkers⟩
  | logLevel =>
    cases hlevel : levelOf value with
    | error f => simp [Options.setValue, hlevel, Except.map] at hset
    | ok level =>
      simp only [Options.setValue, hlevel, Except.map, Except.ok.injEq] at hset
      subst hset
      exact ⟨h.external, h.workers⟩
  | _ =>
    obtain rfl := Except.ok.inj hset
    exact ⟨h.external, h.workers⟩

/-- Taking all arguments yields options as they are given, one value after the other. -/
theorem Given.take (h : o.Given) {unused : List String} {pieces : List Piece}
    (htake : o.take unused pieces = .ok (.run o')) : o'.Given := by
  fun_induction Options.take o unused pieces with
  | case1 =>
    obtain rfl := Request.run.inj (Except.ok.inj htake)
    exact h
  | case3 _ _ _ _ ih | case4 _ _ _ _ ih | case5 _ _ _ ih => exact ih h htake
  | case7 =>
    -- characters behind the short option ask for help or are refused
    unfold shortHelps at htake
    dsimp only at htake
    split at htake <;> cases htake
  | case8 _ _ _ _ ih => exact ih ⟨h.external, h.workers⟩ htake
  | case9 _ _ _ _ _ _ _ _ ih | case11 _ _ _ _ _ _ _ _ ih =>
    obtain ⟨next, hset, htake⟩ := bind_eq_ok_iff.mp htake
    exact ih next (h.setValue hset) htake
  | _ => cases htake

end Options

end VariableOrder.CommandLine
