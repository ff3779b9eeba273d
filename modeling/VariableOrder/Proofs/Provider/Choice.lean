import VariableOrder.Definition.Load
import VariableOrder.Proofs.Data.Plain
import VariableOrder.Proofs.Provider.Canonical

/-!
# Parameters with allowed texts

Some parameters of the standard providers allow only a few texts. The raw value is checked, and
not the expression that it becomes: a text without a dollar sign has to be an allowed one, and any
other value is let through. For a call and for a text that refers to something this is as it
should be. But a number, a truth value or a day becomes a constant text like any other, and a text
whose dollar signs refer to nothing is constant too. These are exactly the values by which a
constant text gets into a call that is not allowed there.
-/

set_option autoImplicit false

namespace VariableOrder

open Data (Value Record)
open Placeholder (Part Reference)

/-- An argument for a parameter with allowed texts is a nested call, an expression text with a
reference in it, or a constant text that is allowed. -/
inductive Argument.KeepsTo (allowed : List String) : Argument → Prop where
  | call (provider : String) (params : List (String × Argument)) :
      KeepsTo allowed (.single (.call provider params))
  | reference {source : String} {parts : List Expr} {r : Reference} (h : .reference r ∈ parts) :
      KeepsTo allowed (.single (.template source parts))
  | constant {source : String} {texts : List String} (h : String.join texts ∈ allowed) :
      KeepsTo allowed (.single (.template source (texts.map .literal)))

/-- The expression text that a scalar becomes, if it can be written. -/
def Data.Value.expressionText? : Value → Option String
  | .null => some ""
  | .flag b => some (if b then "true" else "false")
  | .list _ => none
  | .record _ => none
  | .again .list => none
  | .again .record => none
  | v => if v.isWritable then some v.plain else none

/-- A value evades the allowed texts: it is no text without a dollar sign, but a scalar that becomes
a constant text which is not allowed. -/
structure Data.Value.Evades (allowed : List String) (v : Value) : Prop where
  given : v.isNull = false
  unchecked : ∀ s, v = .text s → '$' ∈ s.toList
  constant : ∃ s texts, v.expressionText? = some s ∧ Placeholder.parts s = texts.map .literal ∧
    String.join texts ∉ allowed

section Constant

/-- Parts hold a reference, or they are all literal text. -/
theorem Placeholder.exists_reference_or_texts (ps : List Part) :
    (∃ r, .reference r ∈ ps) ∨ ∃ texts : List String, ps = texts.map .literal := by
  induction ps with
  | nil => exact .inr ⟨[], rfl⟩
  | cons p ps ih =>
    cases p with
    | reference r => exact .inl ⟨r, List.mem_cons_self⟩
    | literal text =>
      rcases ih with ⟨r, hr⟩ | ⟨texts, rfl⟩
      · exact .inl ⟨r, List.mem_cons_of_mem _ hr⟩
      · exact .inr ⟨text :: texts, rfl⟩

variable {allowed : List String}

/-- An expression text is kept to what is allowed if it is allowed in case it is constant. -/
theorem Argument.keepsTo_ofText_iff {s : String} : KeepsTo allowed (.single (.ofText s)) ↔
    ∀ texts, Placeholder.parts s = texts.map .literal → String.join texts ∈ allowed := by
  constructor
  · intro h texts htexts
    have hparts : (Placeholder.parts s).map Expr.ofPart = texts.map .literal := by
      rw [htexts, List.map_map]
      rfl
    unfold Expr.ofText at h
    rw [hparts] at h
    generalize hliterals : texts.map Expr.literal = literals at h
    cases h with
    | reference hr =>
      rw [← hliterals] at hr
      obtain ⟨text, -, heq⟩ := List.mem_map.mp hr
      cases heq
    | constant hallowed =>
      obtain rfl := List.map_injective_iff.mpr (fun _ _ => Expr.literal.inj) hliterals
      exact hallowed
  · intro h
    rcases Placeholder.exists_reference_or_texts (Placeholder.parts s) with
      ⟨r, hr⟩ | ⟨texts, htexts⟩
    · exact .reference (List.mem_map.mpr ⟨_, hr, rfl⟩)
    · have hconstant : Expr.ofText s = .template s (texts.map .literal) := by
        rw [Expr.ofText, htexts, List.map_map]
        rfl
      rw [hconstant]
      exact .constant (h texts htexts)

/-- A text without a dollar sign stands for itself. -/
theorem Placeholder.join_of_dollar_not_mem {s : String} (h : '$' ∉ s.toList) {texts : List String}
    (htexts : parts s = texts.map .literal) : String.join texts = s := by
  rw [parts_of_dollar_not_mem h, withText] at htexts
  split_ifs at htexts with hempty
  · obtain rfl : texts = [] := List.map_eq_nil_iff.mp htexts.symm
    exact (String.toList_eq_nil_iff.mp (List.isEmpty_iff.mp hempty)).symm
  · obtain ⟨text, rfl, htext⟩ := List.map_eq_singleton_iff.mp htexts.symm
    obtain rfl := Part.literal.inj htext
    simp [String.join]

end Constant

section Built

variable {c : Catalogue} {p : Provider} {place : String} {v : Value}

/-- What is no record is built to its expression text, if it has one. -/
theorem Catalogue.build_eq_ok_iff_of_ne (hrecord : ∀ entries, v ≠ .record entries) {e : Expr} :
    c.build place v = .ok e ↔ ∃ s, v.expressionText? = some s ∧ .ofText s = e := by
  have hwritten : ∀ (test : Bool) (s : String) (x : CallFailure),
      (if test then .ok (.ofText s) else .error x) = (.ok e : Except CallFailure Expr) ↔
        ∃ t, (if test then some s else none) = some t ∧ .ofText t = e := by
    intro test s x
    cases test <;> simp
  cases v with
  | record entries => exact absurd rfl (hrecord entries)
  | null => simp [Value.expressionText?, build, scalarExpr]
  | flag b => simp [Value.expressionText?, build, scalarExpr]
  | list items => simp [Value.expressionText?, build]
  | again kind =>
    cases kind with
    | pair => exact hwritten true _ (.problem place .numberTooLong)
    | _ => simp [Value.expressionText?, build]
  | _ => simpa only [Value.expressionText?, build, scalarExpr] using hwritten _ _ _

/-- A scalar is built to the expression of its text. -/
theorem Catalogue.build_of_expressionText? {s : String} (h : v.expressionText? = some s) :
    c.build place v = .ok (.ofText s) := by
  refine (build_eq_ok_iff_of_ne ?_).mpr ⟨s, h, rfl⟩
  rintro entries rfl
  cases h

/-- What is built is a call or the expression of a scalar. -/
theorem Catalogue.call_or_ofText_of_build {e : Expr} (h : c.build place v = .ok e) :
    (∃ provider arguments, e = .call provider arguments) ∨
      ∃ s, v.expressionText? = some s ∧ .ofText s = e := by
  by_cases hrecord : ∃ entries, v = .record entries
  · obtain ⟨entries, rfl⟩ := hrecord
    exact .inl (exists_call_of_build_record h)
  · exact .inr ((build_eq_ok_iff_of_ne (not_exists.mp hrecord)).mp h)

/-- An argument of an accepted call is built from the raw value under its name. -/
theorem Provider.exists_build_of_argument? {name : String} (hlist : p.list.contains name = false)
    {raw : Record Value} (hget : raw.get? name = some v) {kind : String}
    {arguments : List (String × Argument)}
    (hcall : p.call (c.params raw) place = .ok (.call kind arguments)) {a : Argument}
    (ha : Expr.argument? arguments name = some a) :
    v.isNull = false ∧ ∃ e, c.build (place ++ ", " ++ name) v = .ok e ∧ a = .single e := by
  rw [Catalogue.params_eq] at hcall
  obtain ⟨-, others, heq, hall⟩ := call_eq_ok_iff.mp hcall
  obtain ⟨-, rfl⟩ := Expr.call.inj heq
  obtain ⟨found, hfound, rfl⟩ := Option.map_eq_some_iff.mp ha
  have hname : found.1 = name := by simpa using List.find?_some hfound
  obtain ⟨⟨other, g⟩, hgiven, hargument⟩ :=
    exists_of_forall₂_right hall (List.mem_of_find?_eq_some hfound)
  obtain rfl : name = other := hname.symm.trans (argument_eq_ok_iff.mp hargument).1
  obtain ⟨-, hg, hnull⟩ := mem_given_iff.mp hgiven
  rw [Catalogue.get?_rawFields, hget] at hg
  obtain rfl := Option.some.inj hg
  obtain ⟨e, hbuild, rfl⟩ := (argument_single_iff hlist).mp hargument
  exact ⟨hnull, e, hbuild, rfl⟩

/-- What a value that passes the check is built to keeps to the allowed texts exactly when the value
does not evade them. -/
theorem Argument.keepsTo_iff_of_build {allowed : List String} {e : Expr}
    (hbuild : c.build place v = .ok e) (hnull : v.isNull = false)
    (hchecked : ∀ s, v = .text s → '$' ∈ s.toList ∨ s ∈ allowed) :
    KeepsTo allowed (.single e) ↔ ¬ v.Evades allowed := by
  rcases Catalogue.call_or_ofText_of_build hbuild with ⟨provider, params, rfl⟩ | ⟨s, hs, rfl⟩
  · refine iff_of_true (.call provider params) fun hevades => ?_
    obtain ⟨s, _, hs, -⟩ := hevades.constant
    cases hbuild.symm.trans (Catalogue.build_of_expressionText? hs)
  · rw [keepsTo_ofText_iff]
    constructor
    · rintro hkeeps ⟨-, -, t, texts, ht, htexts, hnot⟩
      obtain rfl := Option.some.inj (hs.symm.trans ht)
      exact hnot (hkeeps texts htexts)
    · intro hevades texts htexts
      by_contra hnot
      -- only a text without a dollar sign is left, and that one is checked as it stands
      refine hevades ⟨hnull, ?_, s, texts, hs, htexts, hnot⟩
      rintro t rfl
      obtain rfl : t = s := by simpa [Value.expressionText?, Value.isWritable, Value.plain] using hs
      by_contra hdollar
      rw [Placeholder.join_of_dollar_not_mem hdollar htexts] at hnot
      exact (hchecked t rfl).elim hdollar hnot

/-- An accepted call keeps to the allowed texts of a parameter exactly when its raw value does not
evade them. -/
theorem Provider.keepsTo_iff_of_call {choice : String × List String} (hchoice : choice ∈ p.choices)
    (hlist : p.list.contains choice.1 = false) {raw : Record Value}
    (hget : raw.get? choice.1 = some v) {kind : String} {arguments : List (String × Argument)}
    (hcall : p.call (c.params raw) place = .ok (.call kind arguments)) {a : Argument}
    (ha : Expr.argument? arguments choice.1 = some a) :
    a.KeepsTo choice.2 ↔ ¬ v.Evades choice.2 := by
  obtain ⟨hnull, e, hbuild, rfl⟩ := exists_build_of_argument? hlist hget hcall ha
  rw [Catalogue.params_eq] at hcall
  refine Argument.keepsTo_iff_of_build hbuild hnull ?_
  rintro s rfl
  refine (call_eq_ok_iff.mp hcall).1.allowed choice hchoice s ?_
  rw [Catalogue.get?_rawFields, hget]
  rfl

end Built

section Accepted

/-- What a provider requires, as empty texts, behind a value for one more parameter. -/
def Provider.requiredWith (p : Provider) (name : String) (v : Value) : Record Value :=
  (.text name, v) :: p.required.map fun n => (.text n, .text "")

variable {p : Provider} {name : String} {v : Value}

/-- In a record of empty texts for the required parameters exactly these are found. -/
theorem Provider.get?_required_iff {other : String} {w : Value} :
    Record.get? (p.required.map fun n => (.text n, .text "")) other = some w ↔
      other ∈ p.required ∧ w = .text "" := by
  induction p.required with
  | nil => simp [Record.get?]
  | cons first rest ih =>
    rw [List.map_cons]
    by_cases hfirst : first = other
    · subst hfirst
      simp [Record.get?_cons_self, eq_comm]
    · rw [Record.get?_cons_of_ne (by simpa using hfirst), ih]
      simp [Ne.symm hfirst]

/-- One further value is found under its name, and an empty text under each required one. -/
theorem Provider.get?_requiredWith_iff (hname : name ∉ p.required) {other : String} {w : Value} :
    (p.requiredWith name v).get? other = some w ↔
      other = name ∧ w = v ∨ other ∈ p.required ∧ w = .text "" := by
  unfold requiredWith
  by_cases hother : name = other
  · subst hother
    simp [Record.get?_cons_self, hname, eq_comm]
  · rw [Record.get?_cons_of_ne (by simpa using hother), get?_required_iff]
    simp [Ne.symm hother]

/-- A parameter with allowed texts is a single value that can be left out. What is required beside
it are single values that allow any text. -/
structure Provider.HasOptional (p : Provider) (choice : String × List String) : Prop where
  param : choice.1 ∈ p.paramNames
  single : p.list.contains choice.1 = false
  singles : ∀ name ∈ p.required, p.list.contains name = false
  optional : ∀ other ∈ p.choices, other.1 ∉ p.required

/-- Whatever a built-in provider allows certain texts for is such a parameter. -/
theorem Catalogue.hasOptional_standard {p : Provider} (hp : p ∈ standardProviders)
    {choice : String × List String} (hchoice : choice ∈ p.choices) : p.HasOptional choice := by
  have hall : ∀ p ∈ standardProviders, ∀ choice ∈ p.choices, choice.1 ∈ p.paramNames ∧
      p.list.contains choice.1 = false ∧ (∀ name ∈ p.required, p.list.contains name = false) ∧
      ∀ other ∈ p.choices, other.1 ∉ p.required := by
    decide
  obtain ⟨hparam, hsingle, hsingles, hoptional⟩ := hall p hp choice hchoice
  exact ⟨hparam, hsingle, hsingles, hoptional⟩

variable {choice : String × List String}

/-- A value that evades a choice is no list. -/
theorem Data.Value.Evades.isList_eq_false {allowed : List String} (h : v.Evades allowed) :
    (Given.raw v).isList = false := by
  obtain ⟨s, _, hs, -⟩ := h.constant
  cases v with
  | list items => cases hs
  | again kind =>
    cases kind with
    | list => cases hs
    | _ => rfl
  | _ => rfl

/-- All of this is given to a provider as it stands. -/
theorem Provider.get?_rawFields_requiredWith_iff (hname : name ∉ p.required) {other : String}
    {g : Given} : Record.get? (Catalogue.rawFields (p.requiredWith name v)) other = some g ↔
      other = name ∧ g = .raw v ∨ other ∈ p.required ∧ g = .raw (.text "") := by
  rw [Catalogue.get?_rawFields, Option.map_eq_some_iff]
  simp only [get?_requiredWith_iff hname]
  constructor
  · rintro ⟨w, ⟨hother, rfl⟩ | ⟨hother, rfl⟩, rfl⟩
    · exact .inl ⟨hother, rfl⟩
    · exact .inr ⟨hother, rfl⟩
  · rintro (⟨hother, rfl⟩ | ⟨hother, rfl⟩)
    · exact ⟨v, .inl ⟨hother, rfl⟩, rfl⟩
    · exact ⟨.text "", .inr ⟨hother, rfl⟩, rfl⟩

/-- The check lets a value through that evades the allowed texts. -/
theorem Provider.admits_requiredWith (hhas : p.HasOptional choice)
    (hchoice : choice ∈ p.choices) (h : v.Evades choice.2) :
    p.Admits (Catalogue.rawFields (p.requiredWith choice.1 v)) := by
  have hget := @get?_rawFields_requiredWith_iff p choice.1 v (hhas.optional choice hchoice)
  refine ⟨?_, ?_, ?_, ?_⟩
  · intro f hf
    obtain ⟨e, he, rfl⟩ := List.mem_map.mp hf
    rcases List.mem_cons.mp he with rfl | hrequired
    · exact ⟨choice.1, hhas.param, rfl⟩
    · obtain ⟨n, hn, rfl⟩ := List.mem_map.mp hrequired
      exact ⟨n, by simp [paramNames, hn], rfl⟩
  · intro n hn
    exact ⟨_, hget.mpr (.inr ⟨hn, rfl⟩), rfl⟩
  · intro other hother s hs
    rcases hget.mp hs with ⟨hname, hv⟩ | ⟨hrequired, -⟩
    · exact .inl (h.unchecked s (Given.raw.inj hv).symm)
    · exact absurd hrequired (hhas.optional other hother)
  · intro n _ _ g hg
    rcases hget.mp hg with ⟨-, rfl⟩ | ⟨-, rfl⟩
    · exact h.isList_eq_false
    · rfl

/-- A value that evades the allowed texts is accepted beside what is required. -/
theorem Provider.exists_call_of_evades (hhas : p.HasOptional choice)
    (hchoice : choice ∈ p.choices) (h : v.Evades choice.2) (c : Catalogue) (place : String) :
    ∃ arguments a, p.call (c.params (p.requiredWith choice.1 v)) place =
      .ok (.call p.typeName arguments) ∧ Expr.argument? arguments choice.1 = some a := by
  have hget := @get?_rawFields_requiredWith_iff p choice.1 v (hhas.optional choice hchoice)
  have hargument : ∀ f ∈ p.given (Catalogue.rawFields (p.requiredWith choice.1 v)),
      ∃ a, p.argument place (f.1, c.givenParam f.2) = .ok a := by
    intro f hf
    rcases hget.mp (mem_given_iff.mp hf).2.1 with ⟨hname, hg⟩ | ⟨hrequired, hg⟩
    · obtain ⟨s, _, hs, -⟩ := h.constant
      rw [hname, hg]
      exact ⟨_, (argument_single_iff hhas.single).mpr
        ⟨_, Catalogue.build_of_expressionText? hs, rfl⟩⟩
    · have hempty : c.buildGiven (place ++ ", " ++ f.1) (.raw (.text "")) = .ok (.ofText "") := by
        rw [Catalogue.buildGiven, Catalogue.build_text]
      rw [hg]
      exact ⟨_, (argument_single_iff (hhas.singles f.1 hrequired)).mpr ⟨_, hempty, rfl⟩⟩
  obtain ⟨arguments, harguments⟩ := exists_forall₂ hargument
  have hcall : p.call (c.params (p.requiredWith choice.1 v)) place =
      .ok (.call p.typeName arguments) := by
    rw [Catalogue.params_eq]
    exact call_eq_ok_iff.mpr ⟨admits_requiredWith hhas hchoice h, arguments, rfl, harguments⟩
  have hgiven : (choice.1, Given.raw v) ∈
      p.given (Catalogue.rawFields (p.requiredWith choice.1 v)) :=
    mem_given_iff.mpr ⟨hhas.param, hget.mpr (.inl ⟨rfl, rfl⟩), h.given⟩
  obtain ⟨b, hb, hbuilt⟩ := exists_of_forall₂_left harguments hgiven
  obtain ⟨a, ha⟩ := Expr.exists_argument? hb
  rw [(argument_eq_ok_iff.mp hbuilt).1] at ha
  exact ⟨arguments, a, hcall, ha⟩

end Accepted

/-- In the accepted calls of a standard provider an argument keeps to the allowed texts of its
parameter exactly when the raw value does not evade them, and every value that evades them is
accepted in some call. -/
theorem Provider.keepsTo_iff_not_evades {p : Provider} (hp : p ∈ Catalogue.standardProviders)
    {choice : String × List String} (hchoice : choice ∈ p.choices) (c : Catalogue) (place : String)
    (v : Value) :
    (∀ (raw : Record Value) (arguments : List (String × Argument)) (a : Argument),
      raw.get? choice.1 = some v → p.call (c.params raw) place = .ok (.call p.typeName arguments) →
        Expr.argument? arguments choice.1 = some a → (a.KeepsTo choice.2 ↔ ¬ v.Evades choice.2)) ∧
    (v.Evades choice.2 → ∃ (raw : Record Value) (arguments : List (String × Argument))
        (a : Argument), raw.get? choice.1 = some v ∧
        p.call (c.params raw) place = .ok (.call p.typeName arguments) ∧
        Expr.argument? arguments choice.1 = some a ∧ ¬ a.KeepsTo choice.2) := by
  have hhas := Catalogue.hasOptional_standard hp hchoice
  refine ⟨fun _ _ _ hget hcall ha => keepsTo_iff_of_call hchoice hhas.single hget hcall ha,
    fun hevades => ?_⟩
  obtain ⟨arguments, a, hcall, ha⟩ := exists_call_of_evades hhas hchoice hevades c place
  have hget : (p.requiredWith choice.1 v).get? choice.1 = some v := Record.get?_cons_self _ _ _
  have hnot : ¬ a.KeepsTo choice.2 := by
    rw [keepsTo_iff_of_call hchoice hhas.single hget hcall ha]
    exact not_not_intro hevades
  exact ⟨_, arguments, a, hget, hcall, ha, hnot⟩

/-- A number is accepted as the kind of a configuration file, and so is a text with a dollar sign
that refers to nothing. -/
theorem Provider.keepsTo_iff_not_evades_number :
    let kinds := Catalogue.fileKinds
    let configfile : Provider :=
      { typeName := "configfile", aliases := [], required := ["file", "key"]
        optional := ["type", "section", "escape"], list := [], choices := [("type", kinds)] }
    ∀ v ∈ [Value.integer 5, Value.text "json$"], ∃ raw arguments a,
      Record.get? raw "type" = some v ∧
        configfile.call (Catalogue.standard.params raw) "" =
          .ok (.call "configfile" arguments) ∧
        Expr.argument? arguments "type" = some a ∧ ¬ a.KeepsTo kinds := by
  intro kinds configfile
  have hevades : ∀ v ∈ [Value.integer 5, Value.text "json$"], v.Evades kinds := by
    simp only [List.forall_mem_cons]
    refine ⟨⟨rfl, by simp, "5", ["5"], rfl, by decide, by decide⟩,
      ⟨rfl, ?_, "json$", ["json$"], rfl, by decide, by decide⟩, by simp⟩
    intro s hs
    obtain rfl := Value.text.inj hs
    decide
  intro v hv
  have hp : configfile ∈ Catalogue.standardProviders := by decide
  have hchoice : ("type", kinds) ∈ configfile.choices := List.mem_singleton.mpr rfl
  exact (keepsTo_iff_not_evades hp hchoice .standard "" v).2 (hevades v hv)

/-- A configuration file whose kind is a number is loaded without a message, with a constant text
for its kind that is not allowed, while the same text is refused. -/
theorem Definition.load_unchecked_choice :
    let file (kind : Value) : Record Value :=
      [(.text "dynamicvariables", .list [.record [(.text "name", .text "x"),
        (.text "provider", .text "configfile"), (.text "file", .text "a"),
        (.text "key", .text "b"), (.text "type", kind)]])]
    (load .standard [] (file (.integer 5))).messages = [] ∧
      (∃ ds, (load .standard [] (file (.integer 5))).outcome = .ok ds ∧
        (ds.definitions.flatMap fun d => d.candidates.map (·.value)) =
          [.call "configfile" [("file", .single (.ofText "a")), ("key", .single (.ofText "b")),
            ("type", .single (.ofText "5"))]]) ∧
      ¬ Argument.KeepsTo Catalogue.fileKinds (.single (.ofText "5")) ∧
      (load .standard [] (file (.text "5"))).messages.length = 1 := by
  intro file
  refine ⟨rfl, ⟨_, rfl, rfl⟩, ?_, rfl⟩
  rw [Argument.keepsTo_ofText_iff]
  push Not
  exact ⟨["5"], by decide, by decide⟩

end VariableOrder
