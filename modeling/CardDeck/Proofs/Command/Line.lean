import Mathlib.Data.List.Induction
import CardDeck.Proofs.Command.Words

/-! # What a command line asks for

A line asks for options if its words give a source and switches that settle the rest. It is read as
options exactly if it asks for them: `Request.ofLine_eq_run_iff`. Every switch is applied on top of
those before it, so the last value counts. An argument without a place is never forgotten, so a line
that is read as options has a single source, in one of three places. -/

namespace CardDeck.Command

variable {c : Conventions} {acts more : List Act} {o o' : Options} {s : Switch} {a : Act}

/-! ### What switches stand for -/

/-- The value that a switch is given. -/
def Act.value? (s : Switch) : Act → Option (Option String)
  | .value t text? => if t = s then some text? else none
  | .flag _ => none

/-- The value that a switch is given last. -/
def lastValue? (s : Switch) (acts : List Act) : Option (Option String) :=
  (acts.filterMap (·.value? s)).getLast?

/-- The output that the last value stands for: standard output without one and for a dash, and the
file of this name for any other. -/
inductive Output.IsFor : Option (Option String) → Output → Prop
  | default : IsFor none .standard
  | dash : IsFor (some (some "-")) .standard
  | name {name : String} (h : name ≠ "-") : IsFor (some (some name)) (.file name)
  | dropped : IsFor (some none) .unnamed

/-- The format that the last value stands for, if it is the name of one. -/
inductive Format.IsFor : Option (Option String) → Format → Prop
  | default : IsFor none .json
  | json : IsFor (some (some "json")) .json
  | text : IsFor (some (some "text")) .text
  | tokens : IsFor (some (some "tokens")) .tokens
  | dropped : IsFor (some none) .text

/-- The options that switches stand for. Every format that is given is one, and nobody asks for
help. -/
structure Settles (acts : List Act) (o : Options) : Prop where
  help : .flag .help ∉ acts
  formats : ∀ text?, .value .format text? ∈ acts → ∃ format, Format.IsFor (some text?) format
  raw : o.raw ↔ .flag .raw ∈ acts
  verbose : o.verbose ↔ .flag .verbose ∈ acts
  output : o.output.IsFor (lastValue? .output acts)
  format : o.format.IsFor (lastValue? .format acts)

theorem lastValue?_concat :
    lastValue? s (acts ++ [a]) = (a.value? s).or (lastValue? s acts) := by
  rw [lastValue?, List.filterMap_append, List.getLast?_append]
  cases h : a.value? s <;> simp [h, lastValue?]

theorem Output.isFor_some_iff {text? : Option String} {output : Output} :
    output.IsFor (some text?) ↔ Output.ofValue text? = output := by
  constructor
  · rintro (_ | _ | h | _)
    · rfl
    · exact if_neg h
    · rfl
  · rintro rfl
    cases text? with
    | none => exact .dropped
    | some name =>
      rw [ofValue]
      split
      · next h =>
        subst h
        exact .dash
      · next h => exact .name h

theorem Output.IsFor.eq {value? : Option (Option String)} {output output' : Output}
    (h : output.IsFor value?) (h' : output'.IsFor value?) : output = output' := by
  cases value? with
  | none =>
    cases h
    cases h'
    rfl
  | some text? => exact (isFor_some_iff.1 h).symm.trans (isFor_some_iff.1 h')

theorem Format.isFor_some_iff {text? : Option String} {format : Format} :
    format.IsFor (some text?) ↔ Format.ofValue? text? = some format := by
  constructor
  · rintro (_ | _ | _ | _ | _) <;> rfl
  · intro h
    rw [ofValue?.eq_def] at h
    split at h
    · cases h
      exact .json
    · cases h
      exact .text
    · cases h
      exact .dropped
    · cases h
      exact .tokens
    · cases h

theorem Format.IsFor.eq {value? : Option (Option String)} {format format' : Format}
    (h : format.IsFor value?) (h' : format'.IsFor value?) : format = format' := by
  cases value? with
  | none =>
    cases h
    cases h'
    rfl
  | some text? => exact Option.some.inj ((isFor_some_iff.1 h).symm.trans (isFor_some_iff.1 h'))

/-- What one more switch does to the options, if it does not end the reading. -/
structure Options.Step (o : Options) (a : Act) (o' : Options) : Prop where
  source : o'.source = o.source
  ne_help : a ≠ .flag .help
  raw : o'.raw ↔ o.raw ∨ a = .flag .raw
  verbose : o'.verbose ↔ o.verbose ∨ a = .flag .verbose
  output : o'.output = ((a.value? .output).map Output.ofValue).getD o.output
  format : some o'.format = ((a.value? .format).map Format.ofValue?).getD (some o.format)

theorem Options.step_of_give (h : o.give a = .ok o') : o.Step a o' := by
  cases a with
  | flag s => cases s <;> cases h <;> constructor <;> simp [Act.value?]
  | value s text? =>
    cases s with
    | format =>
      rw [give] at h
      split at h
      · next format hformat =>
        cases h
        constructor <;> simp [Act.value?, hformat]
      · cases h
    | help | output | raw | verbose => cases h; constructor <;> simp [Act.value?]

/-- A switch that ends the reading leaves nothing to run. -/
theorem Options.give_ne_error_run {start : Options} : start.give a ≠ .error (.run o) := by
  intro h
  rw [give.eq_def] at h
  split at h
  iterate 4 cases h
  · split at h <;> cases h
  · cases h
  · cases h

namespace Settles

/-- Nothing is said of the source by switches. -/
theorem withSource (h : Settles acts o) (source : String) : Settles acts { o with source } :=
  { h with }

theorem nil {source : String} : Settles [] { source } where
  help := List.not_mem_nil
  formats _ h := nomatch h
  raw := by simp
  verbose := by simp
  output := .default
  format := .default

/-- One more switch settles what it is about, and leaves the rest as it is. -/
theorem concat (h : Settles acts o) (hstep : o.Step a o') : Settles (acts ++ [a]) o' where
  help := by simpa [h.help] using hstep.ne_help.symm
  formats text? hmem := by
    rcases List.mem_append.1 hmem with hmem | hmem
    · exact h.formats text? hmem
    · obtain rfl := List.mem_singleton.1 hmem
      exact ⟨_, Format.isFor_some_iff.2 hstep.format.symm⟩
  raw := by simp [hstep.raw, h.raw, eq_comm]
  verbose := by simp [hstep.verbose, h.verbose, eq_comm]
  output := by
    rw [lastValue?_concat, hstep.output]
    cases a.value? .output with
    | none => exact h.output
    | some text? => exact Output.isFor_some_iff.2 rfl
  format := by
    have hformat := hstep.format
    rw [lastValue?_concat]
    cases hvalue : a.value? .format with
    | none =>
      rw [hvalue] at hformat
      rw [Option.some.inj hformat]
      exact h.format
    | some text? =>
      rw [hvalue] at hformat
      exact Format.isFor_some_iff.2 hformat.symm

/-- Switches settle all options but the source. -/
theorem eq (h : Settles acts o) (h' : Settles acts o') (hsource : o.source = o'.source) :
    o = o' := by
  have hraw : o.raw = o'.raw := Bool.eq_iff_iff.2 (h.raw.trans h'.raw.symm)
  have hverbose : o.verbose = o'.verbose := Bool.eq_iff_iff.2 (h.verbose.trans h'.verbose.symm)
  have houtput : o.output = o'.output := h.output.eq h'.output
  have hformat : o.format = o'.format := h.format.eq h'.format
  cases o
  cases o'
  simp_all

end Settles

/-- Switches are applied one after another, later ones on top of those before them. -/
theorem foldlM_give_append_eq_ok_iff : (acts ++ more).foldlM Options.give o = .ok o' ↔
    ∃ o₁, acts.foldlM Options.give o = .ok o₁ ∧ more.foldlM Options.give o₁ = .ok o' := by
  rw [List.foldlM_append]
  cases acts.foldlM Options.give o with
  | error request => exact ⟨nofun, fun ⟨_, h, _⟩ => nomatch h⟩
  | ok o₁ =>
    constructor
    · intro h
      exact ⟨o₁, rfl, h⟩
    · rintro ⟨_, ⟨⟩, h⟩
      exact h

theorem settles_of_foldlM {source : String} (h : acts.foldlM Options.give { source } = .ok o) :
    Settles acts o ∧ o.source = source := by
  induction acts using List.reverseRecOn generalizing o with
  | nil =>
    cases h
    exact ⟨.nil, rfl⟩
  | append_singleton acts a ih =>
    obtain ⟨o₁, hacts, hlast⟩ := foldlM_give_append_eq_ok_iff.1 h
    obtain ⟨hsettles, hsource⟩ := ih hacts
    have hstep : o₁.Step a o := Options.step_of_give (by simpa using hlast)
    exact ⟨hsettles.concat hstep, hstep.source.trans hsource⟩

/-- Only a call for help and a format that is none end the reading. -/
theorem exists_foldlM_give (hhelp : .flag .help ∉ acts)
    (hformats : ∀ text?, .value .format text? ∈ acts → ∃ format, Format.IsFor (some text?) format)
    (o : Options) : ∃ o', acts.foldlM Options.give o = .ok o' := by
  induction acts generalizing o with
  | nil => exact ⟨o, rfl⟩
  | cons a acts ih =>
    obtain ⟨o', ho'⟩ : ∃ o', o.give a = .ok o' := by
      cases a with
      | flag s =>
        cases s with
        | help => exact absurd List.mem_cons_self hhelp
        | output | format | raw | verbose => exact ⟨_, rfl⟩
      | value s text? =>
        cases s with
        | format =>
          obtain ⟨format, hformat⟩ := hformats text? List.mem_cons_self
          rw [Options.give, Format.isFor_some_iff.1 hformat]
          exact ⟨_, rfl⟩
        | help | output | raw | verbose => exact ⟨_, rfl⟩
    rw [List.foldlM_cons, ho']
    exact ih (fun h => hhelp (.tail _ h)) (fun text? h => hformats text? (.tail _ h)) o'

theorem foldlM_give_eq_ok_iff {source : String} :
    acts.foldlM Options.give { source } = .ok o ↔ Settles acts o ∧ o.source = source := by
  refine ⟨settles_of_foldlM, ?_⟩
  rintro ⟨hsettles, hsource⟩
  obtain ⟨o', ho'⟩ := exists_foldlM_give hsettles.help hsettles.formats { source }
  obtain ⟨hsettles', hsource'⟩ := settles_of_foldlM ho'
  rw [ho', hsettles'.eq hsettles (hsource'.trans hsource.symm)]

/-! ### Lines -/

/-- Words that are switches, each with its value attached or behind it. -/
inductive Switches (c : Conventions) : List String → List Act → Prop
  | nil : Switches c [] []
  | word {word : String} {line : List String} {acts more : List Act}
      (h : Spells c word.toList acts none) (hline : Switches c line more) :
      Switches c (word :: line) (acts ++ more)
  | value {word value : String} {line : List String} {acts more : List Act} {s : Switch}
      (h : Spells c word.toList acts (some s)) (hvalue : IsOperand value.toList)
      (hline : Switches c line more) :
      Switches c (word :: value :: line) (acts ++ .value s (some value) :: more)

/-- A line gives switches and one source. The source stands between the switches, or next to a
double dash that ends them; behind that it may look like one of them. -/
inductive Gives (c : Conventions) : List String → List Act → String → Prop
  | between {front back : List String} {acts more : List Act} {source : String}
      (hfront : Switches c front acts) (h : IsOperand source.toList)
      (hback : Switches c back more) : Gives c (front ++ source :: back) (acts ++ more) source
  | beforeDashes {front : List String} {acts : List Act} {source : String}
      (hfront : Switches c front acts) (h : IsOperand source.toList) :
      Gives c (front ++ [source, "--"]) acts source
  | behindDashes {front : List String} {acts : List Act} {source : String}
      (hfront : Switches c front acts) : Gives c (front ++ ["--", source]) acts source

/-- What a line asks for. -/
def Asks (c : Conventions) (line : List String) (o : Options) : Prop :=
  ∃ acts, Gives c line acts o.source ∧ Settles acts o

variable {line front back : List String} {word source : String} {l l' : Line}

namespace Switches

theorem single (h : Spells c word.toList acts none) : Switches c [word] acts := by
  simpa using Switches.word h .nil

theorem pair {value : String} (h : Spells c word.toList acts (some s))
    (hvalue : IsOperand value.toList) :
    Switches c [word, value] (acts ++ [.value s (some value)]) :=
  .value h hvalue .nil

theorem append (hfront : Switches c front acts) (hback : Switches c back more) :
    Switches c (front ++ back) (acts ++ more) := by
  induction hfront with
  | nil => exact hback
  | word h _ ih =>
    rw [List.cons_append, List.append_assoc]
    exact .word h ih
  | value h hvalue _ ih =>
    rw [List.cons_append, List.cons_append, List.append_assoc, List.cons_append]
    exact .value h hvalue ih

end Switches

theorem Gives.append (hfront : Switches c front acts) (h : Gives c back more source) :
    Gives c (front ++ back) (acts ++ more) source := by
  cases h with
  | between hswitches hsource hback =>
    rw [← List.append_assoc, ← List.append_assoc]
    exact .between (hfront.append hswitches) hsource hback
  | beforeDashes hswitches hsource =>
    rw [← List.append_assoc]
    exact .beforeDashes (hfront.append hswitches) hsource
  | behindDashes hswitches =>
    rw [← List.append_assoc]
    exact .behindDashes (hfront.append hswitches)

namespace Argument

theorem ofLine_dashes : ofLine c ("--" :: line) = .marker :: line.map .operand := rfl

theorem ofLine_of_isOperand (h : IsOperand word.toList) :
    ofLine c (word :: line) = .operand word :: ofLine c line := by
  simp [ofLine, ofText_of_isOperand h]

theorem ofLine_of_spells {s? : Option Switch} (h : Spells c word.toList acts s?) :
    ofLine c (word :: line) = ofActs acts s? :: ofLine c line := by
  cases s? <;> simp [ofLine, ofText_of_spells h, ofActs]

end Argument

namespace Line

theorem apply_eq_ok_iff : l.apply acts = .ok l' ↔
    ∃ options, acts.foldlM Options.give l.options = .ok options ∧
      l' = { l with options, atSource := false } := by
  rw [apply]
  cases acts.foldlM Options.give l.options with
  | error request => exact ⟨nofun, fun ⟨_, h, _⟩ => nomatch h⟩
  | ok options =>
    constructor
    · rintro ⟨⟩
      exact ⟨options, rfl, rfl⟩
    · rintro ⟨_, ⟨⟩, rfl⟩
      rfl

theorem apply_append_eq_ok_iff : l.apply (acts ++ more) = .ok l' ↔
    ∃ l₁, l.apply acts = .ok l₁ ∧ l₁.apply more = .ok l' := by
  constructor
  · intro h
    obtain ⟨options', hoptions, rfl⟩ := apply_eq_ok_iff.1 h
    obtain ⟨options, hacts, hmore⟩ := foldlM_give_append_eq_ok_iff.1 hoptions
    exact ⟨_, apply_eq_ok_iff.2 ⟨options, hacts, rfl⟩, apply_eq_ok_iff.2 ⟨options', hmore, rfl⟩⟩
  · rintro ⟨l₁, hacts, hmore⟩
    obtain ⟨options, hoptions, rfl⟩ := apply_eq_ok_iff.1 hacts
    obtain ⟨options', hoptions', rfl⟩ := apply_eq_ok_iff.1 hmore
    refine apply_eq_ok_iff.2 ⟨options', ?_, rfl⟩
    exact foldlM_give_append_eq_ok_iff.2 ⟨options, hoptions, hoptions'⟩

/-- Switches leave the source as it is, and it is not the word before any more. -/
theorem source?_of_apply (h : l.apply acts = .ok l') :
    l'.source? = l.source? ∧ l'.stray = l.stray ∧ l'.atSource = false := by
  obtain ⟨options, -, rfl⟩ := apply_eq_ok_iff.1 h
  exact ⟨rfl, rfl, rfl⟩

theorem finish_eq_run_iff : l.finish = .run o ↔
    l.source? = some o.source ∧ l.stray = false ∧ o = { l.options with source := o.source } := by
  rw [finish]
  split
  · next source hsource hstray =>
    rw [hsource, hstray]
    constructor
    · rintro ⟨⟩
      exact ⟨rfl, rfl, rfl⟩
    · rintro ⟨⟨⟩, -, heq⟩
      rw [heq]
  · next hother =>
    refine ⟨nofun, ?_⟩
    rintro ⟨hsource, hstray, -⟩
    exact absurd hstray (hother _ hsource)

/-- Switches in front of the rest of a line are applied, and then the rest is read. -/
theorem read_switches (h : Switches c front acts) (happly : l.apply acts = .ok l')
    (hplace : l.atSource = false ∨ back = []) :
    l.read (Argument.ofLine c (front ++ back)) = l'.read (Argument.ofLine c back) := by
  induction h generalizing l with
  | nil =>
    obtain ⟨options, ⟨⟩, rfl⟩ := apply_eq_ok_iff.1 happly
    rcases hplace with hplace | rfl
    · rw [← hplace]
      rfl
    · rfl
  | word h _ ih =>
    obtain ⟨l₁, hfirst, hrest⟩ := apply_append_eq_ok_iff.1 happly
    rw [List.cons_append, Argument.ofLine_of_spells h, Argument.ofActs, read, hfirst]
    exact ih hrest (.inl (source?_of_apply hfirst).2.2)
  | value h hvalue _ ih =>
    rw [List.append_cons] at happly
    obtain ⟨l₁, hfirst, hrest⟩ := apply_append_eq_ok_iff.1 happly
    rw [List.cons_append, List.cons_append, Argument.ofLine_of_spells h,
      Argument.ofLine_of_isOperand hvalue, Argument.ofActs, read, hfirst]
    exact ih hrest (.inl (source?_of_apply hfirst).2.2)

theorem foldlM_give_ne_error_run {start : Options} :
    acts.foldlM Options.give start ≠ .error (.run o) := by
  induction acts generalizing start with
  | nil => exact nofun
  | cons a acts ih =>
    intro h
    rw [List.foldlM_cons] at h
    cases ha : start.give a with
    | error request =>
      rw [ha] at h
      cases h
      exact Options.give_ne_error_run ha
    | ok options =>
      rw [ha] at h
      exact ih h

theorem apply_ne_error_run : l.apply acts ≠ .error (.run o) := by
  intro h
  rw [apply] at h
  cases hacts : acts.foldlM Options.give l.options with
  | error request =>
    rw [hacts] at h
    cases h
    exact foldlM_give_ne_error_run hacts
  | ok options =>
    rw [hacts] at h
    cases h

/-- A line that is read as options goes on behind switches with what they have left. -/
theorem exists_of_applied {next : Line → Request} (h : (match l.apply acts with
      | .error request => request
      | .ok l => next l) = .run o) : ∃ l₁, l.apply acts = .ok l₁ ∧ next l₁ = .run o := by
  cases happly : l.apply acts with
  | error request =>
    rw [happly] at h
    cases h
    exact absurd happly apply_ne_error_run
  | ok l₁ =>
    rw [happly] at h
    exact ⟨l₁, rfl, h⟩

theorem operand_of_source?_eq {text : String} (h : l.source? = none) :
    l.operand text = { l with source? := some text, atSource := true } := by
  rw [operand, h]

theorem stray_operand {text : String} (h : (l.operand text).stray = false) :
    l.source? = none ∧ l.stray = false := by
  rw [operand] at h
  split at h
  · next hsource => exact ⟨hsource, h⟩
  · cases h

theorem stray_mark (h : l.mark.stray = false) :
    (l.source? = none ∨ l.atSource) ∧ l.stray = false := by
  rw [mark, Bool.or_eq_false_iff, Bool.and_eq_false_iff] at h
  simpa [and_comm] using h

/-- A line that is read as options holds no argument without a place and none that is ambiguous. -/
theorem stray_eq_of_read {arguments : List Argument} (h : l.read arguments = .run o) :
    l.stray = false ∧ .ambiguous ∉ arguments := by
  fun_induction read l arguments with
  | case1 => exact ⟨(finish_eq_run_iff.1 h).2.1, List.not_mem_nil⟩
  | case2 l text rest ih =>
    obtain ⟨hstray, hrest⟩ := ih h
    exact ⟨(stray_operand hstray).2, by simpa using hrest⟩
  | case3 l rest ih =>
    obtain ⟨hstray, hrest⟩ := ih h
    exact ⟨(stray_mark hstray).2, by simpa using hrest⟩
  | case4 l acts rest request heq | case9 l acts rest request heq =>
    cases h
    exact absurd heq apply_ne_error_run
  | case6 l acts s text rest request heq =>
    cases h
    exact absurd heq apply_ne_error_run
  | case5 l acts rest l' heq ih | case7 l acts s text rest l' heq ih =>
    obtain ⟨hstray, hrest⟩ := ih h
    exact ⟨(source?_of_apply heq).2.1 ▸ hstray, by simpa using hrest⟩
  | case10 l acts rest l' heq ih => cases (ih h).1
  | case8 | case11 | case12 => cases h

/-- A switch whose value has yet to come is read with the operand behind it. -/
theorem exists_of_read_pending {s : Switch} {arguments : List Argument}
    (h : l.read (.pending acts s :: arguments) = .run o) : ∃ text rest l₁,
      arguments = .operand text :: rest ∧ l.apply (acts ++ [.value s (some text)]) = .ok l₁ ∧
        l₁.read rest = .run o := by
  cases arguments with
  | nil => cases h
  | cons a rest =>
    cases a with
    | operand text =>
      rw [read] at h
      obtain ⟨l₁, happly, hread⟩ := exists_of_applied h
      exact ⟨text, rest, l₁, rfl, happly, hread⟩
    | marker | acts | pending | unknown | surplus | ambiguous => cases h

theorem exists_of_ofLine_eq {text : String} {rest : List Argument}
    (h : Argument.ofLine c line = .operand text :: rest) :
    ∃ back, line = text :: back ∧ IsOperand text.toList ∧ rest = Argument.ofLine c back := by
  cases line with
  | nil => cases h
  | cons word back =>
    rcases Argument.ofText_cases c word with ⟨rfl, -⟩ | ⟨hoperand, -⟩ | hsatisfies
    · cases h
    · rw [Argument.ofLine_of_isOperand hoperand] at h
      cases h
      exact ⟨back, rfl, hoperand, rfl⟩
    · rw [Argument.ofLine] at h
      split at h
      · cases h
      · rw [(List.cons.inj h).1] at hsatisfies
        exact hsatisfies.elim

/-- How a line is read as options, one step after another. -/
inductive Reads (c : Conventions) (o : Options) : Line → List String → Prop
  | nil {l : Line} (h : l.finish = .run o) : Reads c o l []
  | switches {l l₁ : Line} {front line : List String} {acts : List Act} (h : Switches c front acts)
      (happly : l.apply acts = .ok l₁) (hline : Reads c o l₁ line) : Reads c o l (front ++ line)
  | source {l : Line} {source : String} {line : List String} (h : IsOperand source.toList)
      (hsource : l.source? = none) (hline : Reads c o (l.operand source) line) :
      Reads c o l (source :: line)
  | dashes {l : Line} (hat : l.atSource) (h : l.finish = .run o) : Reads c o l ["--"]
  | behindDashes {l : Line} {source : String} (hsource : l.source? = none)
      (h : (l.operand source).finish = .run o) : Reads c o l ["--", source]

/-- Behind a double dash there is at most the source. -/
theorem reads_of_read_dashes (h : l.mark.read (line.map .operand) = .run o) :
    Reads c o l ("--" :: line) := by
  obtain ⟨hplace, hstray⟩ := stray_mark (stray_eq_of_read h).1
  have hmark : l.mark = l := by
    cases l
    rcases hplace with hplace | hplace <;> simp_all [mark]
  rw [hmark] at h
  cases line with
  | nil =>
    rcases hplace with hsource | hat
    · rw [(finish_eq_run_iff.1 h).1] at hsource
      cases hsource
    · exact .dashes hat h
  | cons source line =>
    rw [List.map_cons, read] at h
    have hsource := (stray_operand (stray_eq_of_read h).1).1
    cases line with
    | nil => exact .behindDashes hsource h
    | cons text line =>
      rw [List.map_cons, read] at h
      have htwice := (stray_operand (stray_eq_of_read h).1).1
      rw [operand_of_source?_eq hsource] at htwice
      cases htwice

theorem reads_of_read (h : l.read (Argument.ofLine c line) = .run o) : Reads c o l line := by
  induction hlength : line.length using Nat.strongRecOn generalizing line l with
  | ind n ih =>
    subst hlength
    cases line with
    | nil => exact .nil h
    | cons word line =>
      rcases Argument.ofText_cases c word with ⟨rfl, -⟩ | ⟨hoperand, -⟩ | hsatisfies
      · exact reads_of_read_dashes h
      · rw [Argument.ofLine_of_isOperand hoperand, read] at h
        have hsource := (stray_operand (stray_eq_of_read h).1).1
        exact .source hoperand hsource (ih _ (by simp) h rfl)
      · rw [Argument.ofLine] at h
        generalize Argument.ofText c word = a at h hsatisfies
        cases a with
        | operand text | marker => exact hsatisfies.elim
        | acts acts =>
          rw [read] at h
          obtain ⟨l₁, happly, hread⟩ := exists_of_applied h
          exact .switches (.single hsatisfies) happly (ih _ (by simp) hread rfl)
        | pending acts s =>
          obtain ⟨value, rest, l₁, hrest, happly, hread⟩ := exists_of_read_pending h
          obtain ⟨back, rfl, hvalue, rfl⟩ := exists_of_ofLine_eq hrest
          refine .switches (.pair hsatisfies hvalue) happly (ih _ ?_ hread rfl)
          simp only [List.length_cons]
          omega
        | unknown acts =>
          rw [read] at h
          obtain ⟨l₁, -, hread⟩ := exists_of_applied h
          cases (stray_eq_of_read hread).1
        | surplus | ambiguous => cases h

namespace Reads

/-- Behind the source there are only switches, or a double dash right behind it. -/
theorem exists_switches (h : Reads c o l line) (hsource : l.source? = some source) :
    (line = ["--"] ∧ l.atSource ∧ l.finish = .run o) ∨
      ∃ acts l', Switches c line acts ∧ l.apply acts = .ok l' ∧ l'.finish = .run o := by
  induction h with
  | nil h => exact .inr ⟨[], _, .nil, rfl, h⟩
  | switches h happly _ ih =>
    obtain ⟨heq, -, hat⟩ := source?_of_apply happly
    rcases ih (heq.trans hsource) with ⟨-, hat', -⟩ | ⟨more, l', hline, hmore, hfinish⟩
    · rw [hat] at hat'
      cases hat'
    · exact .inr ⟨_, l', h.append hline, apply_append_eq_ok_iff.2 ⟨_, happly, hmore⟩, hfinish⟩
  | dashes hat h => exact .inl ⟨rfl, hat, h⟩
  | source h hnone | behindDashes hnone =>
    rw [hsource] at hnone
    cases hnone

/-- A line gives switches and its source, if none has been found before. -/
theorem exists_gives (h : Reads c o l line) (hsource : l.source? = none) :
    ∃ acts options, Gives c line acts o.source ∧
      acts.foldlM Options.give l.options = .ok options ∧
        o = { options with source := o.source } := by
  induction h with
  | nil h | dashes _ h =>
    rw [(finish_eq_run_iff.1 h).1] at hsource
    cases hsource
  | switches h happly _ ih =>
    obtain ⟨more, options, hline, hmore, heq⟩ := ih ((source?_of_apply happly).1.trans hsource)
    obtain ⟨options₁, hacts, rfl⟩ := apply_eq_ok_iff.1 happly
    exact ⟨_, options, hline.append h, foldlM_give_append_eq_ok_iff.2 ⟨_, hacts, hmore⟩, heq⟩
  | @source l source line h hnone hline ih =>
    rw [operand_of_source?_eq hnone] at hline
    rcases hline.exists_switches rfl with ⟨rfl, -, hfinish⟩ | ⟨acts, l', hback, happly, hfinish⟩
    · obtain ⟨hname, -, heq⟩ := finish_eq_run_iff.1 hfinish
      obtain rfl := Option.some.inj hname
      exact ⟨[], _, .beforeDashes .nil h, rfl, heq⟩
    · obtain ⟨hname, -, heq⟩ := finish_eq_run_iff.1 hfinish
      obtain ⟨options, hacts, rfl⟩ := apply_eq_ok_iff.1 happly
      obtain rfl := Option.some.inj hname
      exact ⟨acts, options, .between .nil h hback, hacts, heq⟩
  | @behindDashes l source hnone h =>
    rw [operand_of_source?_eq hnone] at h
    obtain ⟨hname, -, heq⟩ := finish_eq_run_iff.1 h
    obtain rfl := Option.some.inj hname
    exact ⟨[], _, .behindDashes .nil, rfl, heq⟩

end Reads

/-- A line that gives switches and a source is read as them. -/
theorem read_of_gives (h : Gives c line acts source) (happly : apply {} acts = .ok l) :
    read {} (Argument.ofLine c line) = .run { l.options with source } := by
  cases h with
  | @between front back acts more _ hfront hsource hback =>
    obtain ⟨l₁, hacts, hmore⟩ := apply_append_eq_ok_iff.1 happly
    obtain ⟨hnone, hstray, -⟩ := source?_of_apply hacts
    obtain ⟨options, hoptions, rfl⟩ := apply_eq_ok_iff.1 hmore
    rw [read_switches hfront hacts (.inl rfl), Argument.ofLine_of_isOperand hsource, read,
      operand_of_source?_eq hnone]
    have hlast : ({ l₁ with source? := some source, atSource := true } : Line).read
        (Argument.ofLine c (back ++ [])) = _ :=
      read_switches hback (apply_eq_ok_iff.2 ⟨options, hoptions, rfl⟩) (.inr rfl)
    rw [List.append_nil] at hlast
    rw [hlast]
    exact finish_eq_run_iff.2 ⟨rfl, hstray, rfl⟩
  | beforeDashes hfront hsource =>
    obtain ⟨hnone, hstray, -⟩ := source?_of_apply happly
    rw [read_switches hfront happly (.inl rfl), Argument.ofLine_of_isOperand hsource, read,
      operand_of_source?_eq hnone, Argument.ofLine_dashes, List.map_nil, read, read]
    exact finish_eq_run_iff.2 ⟨rfl, by simpa [mark] using hstray, rfl⟩
  | behindDashes hfront =>
    obtain ⟨hnone, hstray, -⟩ := source?_of_apply happly
    have hmark : l.mark.source? = none := hnone
    rw [read_switches hfront happly (.inl rfl), Argument.ofLine_dashes, List.map_singleton, read,
      read, operand_of_source?_eq hmark, read]
    exact finish_eq_run_iff.2 ⟨rfl, by simpa [mark, hnone] using hstray, rfl⟩

end Line

/-- A line is read as options exactly if it asks for them. -/
theorem Request.ofLine_eq_run_iff : Request.ofLine c line = .run o ↔ Asks c line o := by
  have hread : Request.ofLine c line = .run o ↔ Line.read {} (Argument.ofLine c line) = .run o := by
    rw [ofLine]
    split
    · next hambiguous =>
      exact ⟨nofun, fun h => absurd hambiguous (Line.stray_eq_of_read h).2⟩
    · rfl
  rw [hread]
  constructor
  · intro h
    obtain ⟨acts, options, hgives, hoptions, heq⟩ := (Line.reads_of_read h).exists_gives rfl
    rw [heq]
    exact ⟨acts, hgives, (settles_of_foldlM hoptions).1.withSource _⟩
  · rintro ⟨acts, hgives, hsettles⟩
    have hoptions : acts.foldlM Options.give { source := "" } = .ok { o with source := "" } :=
      foldlM_give_eq_ok_iff.2 ⟨hsettles.withSource "", rfl⟩
    exact Line.read_of_gives hgives (Line.apply_eq_ok_iff.2 ⟨_, hoptions, rfl⟩)

/-! ### The raw switch -/

theorem Switches.raw_mem_iff (h : Switches c front acts) :
    .flag .raw ∈ acts ↔ ∃ word ∈ front, Names word.toList .raw := by
  induction h with
  | nil => simp
  | word h _ ih => simp [h.raw_mem_iff, ih]
  | value h hvalue _ ih => simp [h.raw_mem_iff, hvalue.not_names, ih]

theorem Switches.ne_dashes (h : Switches c front acts) : ∀ word ∈ front, word ≠ "--" := by
  induction h with
  | nil => simp
  | word h _ ih => exact List.forall_mem_cons.2 ⟨h.ne_dashes, ih⟩
  | value h hvalue _ ih =>
    exact List.forall_mem_cons.2 ⟨h.ne_dashes, List.forall_mem_cons.2 ⟨hvalue.ne_dashes, ih⟩⟩

theorem Gives.raw_mem_iff (h : Gives c line acts source) : .flag .raw ∈ acts ↔
    ∃ word ∈ line.takeWhile (· ≠ "--"), Names word.toList .raw := by
  have hplain {front back : List String} {acts : List Act} (hfront : Switches c front acts) :
      (front ++ back).takeWhile (· ≠ "--") = front ++ back.takeWhile (· ≠ "--") :=
    List.takeWhile_append_of_pos fun word hword => decide_eq_true (hfront.ne_dashes word hword)
  cases h with
  | @between _ back _ _ _ hfront hsource hback =>
    have hbehind : (back ++ []).takeWhile (· ≠ "--") = _ := hplain hback
    rw [List.append_nil] at hbehind
    rw [hplain hfront, List.takeWhile_cons_of_pos (by simpa using hsource.ne_dashes), hbehind]
    simp [hfront.raw_mem_iff, hback.raw_mem_iff, hsource.not_names, or_and_right, exists_or]
  | beforeDashes hfront hsource =>
    rw [hplain hfront, List.takeWhile_cons_of_pos (by simpa using hsource.ne_dashes)]
    simp [hfront.raw_mem_iff, hsource.not_names, or_and_right, exists_or]
  | behindDashes hfront =>
    rw [hplain hfront]
    simp [hfront.raw_mem_iff]

/-- Raw mode is what a line asks for if its switch is among the words, up to a double dash. -/
theorem Asks.raw_iff (h : Asks c line o) : o.raw ↔ ∃ word ∈ line.takeWhile (· ≠ "--"),
    "--r".toList <+: word.toList ∧ word.toList <+: "--raw-lexer".toList := by
  obtain ⟨acts, hgives, hsettles⟩ := h
  simp only [hsettles.raw, hgives.raw_mem_iff, names_raw_iff]

/-! ### Outputs without a name -/

theorem Switches.dropsDashes_of_mem (h : Switches c front acts) (hmem : .value s none ∈ acts) :
    c.dropsDashes := by
  induction h with
  | nil => cases hmem
  | word h _ ih =>
    rcases List.mem_append.1 hmem with hmem | hmem
    · exact h.dropsDashes_of_mem hmem
    · exact ih hmem
  | value h _ _ ih =>
    rcases List.mem_append.1 hmem with hmem | hmem
    · exact h.dropsDashes_of_mem hmem
    · rcases List.mem_cons.1 hmem with heq | hmem
      · cases heq
      · exact ih hmem

theorem Gives.dropsDashes_of_mem (h : Gives c line acts source) (hmem : .value s none ∈ acts) :
    c.dropsDashes := by
  cases h with
  | between hfront _ hback =>
    rcases List.mem_append.1 hmem with hmem | hmem
    · exact hfront.dropsDashes_of_mem hmem
    · exact hback.dropsDashes_of_mem hmem
  | beforeDashes hfront | behindDashes hfront => exact hfront.dropsDashes_of_mem hmem

/-- A line asks for an output without a name only where an attached double dash is dropped. -/
theorem Asks.dropsDashes (h : Asks c line o) (houtput : o.output = .unnamed) : c.dropsDashes := by
  obtain ⟨acts, hgives, hsettles⟩ := h
  have hlast := hsettles.output
  rw [houtput] at hlast
  generalize hvalue : lastValue? .output acts = value? at hlast
  cases hlast
  obtain ⟨a, hmem, ha⟩ := List.mem_filterMap.1 (List.mem_of_getLast? hvalue)
  cases a with
  | flag s => cases ha
  | value s text? =>
    rw [Act.value?] at ha
    split at ha
    · cases ha
      exact hgives.dropsDashes_of_mem hmem
    · cases ha

end CardDeck.Command
